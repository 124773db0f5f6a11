import Backrun.Proofs.Cycle.Sizing
import Backrun.Proofs.Simulation.TwoPools

/-!
# Where the search for the best input lands

The profits of a cycle at the multiples of its step may be any numbers.  The search keeps a
range of multiples (`Bracket`): the profit has risen to its lower end, unless that is one, and
does not rise behind its upper end, unless that is the largest multiple.

- `Bracket.upper`, `Bracket.lower`: a round keeps either half of the range.
- `narrow_bracket`: the rounds of a search halve it again and again, so that enough rounds leave
  a single multiple.
- `narrowInWords_eq`: on the way all numbers are 64-bit words.
- `size_peak`: the sized cycle.  It says nothing about a larger profit behind a valley.
-/

namespace Backrun

/-- The largest multiple of the step that a search may come to. -/
def SearchParams.greatestMultiple (p : SearchParams) : Nat := max 1 p.mostSteps.toNat

namespace Route

variable {profit : Nat → Amount} {query : Nat → Query Amount} {s : Store}
  {most low high middle peak rounds : Nat}

/-! ## Peaks -/

/-- A range of multiples around a peak of the profits from one to `most`. -/
structure Bracket (profit : Nat → Amount) (most low high : Nat) : Prop where
  first : 1 ≤ low
  ordered : low ≤ high
  last : high ≤ most
  /-- The profit has risen to the lower end. -/
  risen : low = 1 ∨ profit (low - 1) < profit low
  /-- It does not rise behind the upper end. -/
  settled : high = most ∨ profit (high + 1) ≤ profit high

/-- The profits rise strictly up to `peak` and never again behind it. -/
structure PeaksAt (profit : Nat → Amount) (most peak : Nat) : Prop where
  first : 1 ≤ peak
  last : peak ≤ most
  rises : ∀ n, 1 ≤ n → n < peak → profit n < profit (n + 1)
  falls : ∀ n, peak ≤ n → n < most → profit (n + 1) ≤ profit n

/-- No multiple earns more than `best`, and each smaller one earns less. -/
structure IsLeastBest (profit : Nat → Amount) (most best : Nat) : Prop where
  greatest : ∀ n, 1 ≤ n → n ≤ most → profit n ≤ profit best
  least : ∀ n, 1 ≤ n → n < best → profit n < profit best

namespace Bracket

/-- All multiples together. -/
theorem whole (hmost : 1 ≤ most) : Bracket profit most 1 most :=
  ⟨Nat.le_refl 1, hmost, Nat.le_refl most, .inl rfl, .inl rfl⟩

/-- Where the profit rises behind a multiple, the range may begin there. -/
theorem upper (h : Bracket profit most low high) (hhigh : middle < high)
    (hrises : profit middle < profit (middle + 1)) : Bracket profit most (middle + 1) high where
  first := Nat.le_add_left 1 middle
  ordered := hhigh
  last := h.last
  risen := .inr hrises
  settled := h.settled

/-- Where it does not rise, the range may end. -/
theorem lower (h : Bracket profit most low high) (hlow : low ≤ middle) (hhigh : middle < high)
    (hsettled : ¬ profit middle < profit (middle + 1)) : Bracket profit most low middle where
  first := h.first
  ordered := hlow
  last := Nat.le_trans (Nat.le_of_lt hhigh) h.last
  risen := h.risen
  settled := .inr (BitVec.not_lt.1 hsettled)

/-- A range of one multiple lies at the only peak there is. -/
theorem eq_peak (h : Bracket profit most low low) (hpeak : PeaksAt profit most peak) :
    low = peak := by
  refine Nat.le_antisymm (Nat.not_lt.1 fun hbehind => ?_) (Nat.not_lt.1 fun hbefore => ?_)
  -- Behind the peak no profit is above the one before it.
  · have hfirst := hpeak.first
    have hlast := h.last
    have hfalls := hpeak.falls (low - 1) (by omega) (by omega)
    rw [Nat.sub_add_cancel h.first] at hfalls
    rcases h.risen with hone | hrisen
    · omega
    · exact absurd hrisen (BitVec.not_lt.2 hfalls)
  -- Before the peak the next profit is above.
  · have hlast := hpeak.last
    rcases h.settled with hend | hsettled
    · omega
    · exact absurd (hpeak.rises low h.first hbefore) (BitVec.not_lt.2 hsettled)

end Bracket

namespace PeaksAt

/-- Up to the peak larger multiples earn more. -/
theorem lt_of_lt (h : PeaksAt profit most peak) {n m : Nat} (hn : 1 ≤ n) (hlt : n < m)
    (hm : m ≤ peak) : profit n < profit m := by
  induction m, hlt using Nat.le_induction with
  | base => exact h.rises n hn hm
  | succ m hnm ih => exact BitVec.lt_trans (ih (by omega)) (h.rises m (by omega) hm)

/-- Behind the peak they never earn more. -/
theorem le_of_le (h : PeaksAt profit most peak) {n : Nat} (hn : peak ≤ n) (hm : n ≤ most) :
    profit n ≤ profit peak := by
  induction n, hn using Nat.le_induction with
  | base => exact BitVec.le_refl _
  | succ n hpn ih => exact BitVec.le_trans (h.falls n hpn hm) (ih (by omega))

theorem isLeastBest (h : PeaksAt profit most peak) : IsLeastBest profit most peak where
  greatest n hn hmost := by
    rcases Nat.lt_or_ge n peak with hbefore | hbehind
    · exact BitVec.le_of_lt (h.lt_of_lt hn hbefore (Nat.le_refl peak))
    · exact h.le_of_le hbehind hmost
  least n hn hbefore := h.lt_of_lt hn hbefore (Nat.le_refl peak)

end PeaksAt

/-! ## Rounds -/

/-- Where all profits are to be had, each round halves the range. -/
theorem narrow_bracket (hquery : ∀ n, 1 ≤ n → n ≤ most → query n s = .ok (profit n))
    (h : Bracket profit most low high) (rounds : Nat) :
    ∃ low' high', narrow query rounds low high s = .ok low' ∧ Bracket profit most low' high'
      ∧ high' - low' ≤ (high - low) / 2 ^ rounds := by
  induction rounds generalizing low high with
  | zero => exact ⟨low, high, rfl, h, by omega⟩
  | succ rounds ih =>
      have hfirst := h.first
      have hlast := h.last
      have hhalf : (high - low) / 2 ^ (rounds + 1) = (high - low) / 2 / 2 ^ rounds := by
        rw [Nat.pow_succ', Nat.div_div_eq_div_mul]
      rw [narrow]
      split
      · rename_i hlt
        rw [hhalf, Query.bind_of_ok (hquery _ (by omega) (by omega)),
          Query.bind_of_ok (hquery _ (by omega) (by omega))]
        split
        · rename_i hrises
          obtain ⟨low', high', hrun, hbracket, hwidth⟩ :=
            ih (h.upper (by omega) hrises)
          refine ⟨low', high', hrun, hbracket, hwidth.trans (Nat.div_le_div_right ?_)⟩
          omega
        · rename_i hsettled
          obtain ⟨low', high', hrun, hbracket, hwidth⟩ :=
            ih (h.lower (by omega) (by omega) hsettled)
          refine ⟨low', high', hrun, hbracket, hwidth.trans (Nat.div_le_div_right ?_)⟩
          omega
      · have hordered := h.ordered
        have hsingle : high - low = 0 := by omega
        refine ⟨low, high, rfl, h, ?_⟩
        rw [hsingle]
        exact Nat.zero_le _

/-! ## The search in words -/

/-- The sum of two words, if a word holds it. -/
def sumInWord (a b : UInt64) : Option UInt64 :=
  if a.toNat + b.toNat < UInt64.size then some (a + b) else none

/-- The difference of two words, if it is not negative. -/
def differenceInWord (a b : UInt64) : Option UInt64 := if b ≤ a then some (a - b) else none

/-- The middle of a range and the multiple behind it, unless a word on the way is left. -/
def middleInWords (low high : UInt64) : Option (UInt64 × UInt64) := do
  let width ← differenceInWord high low
  let middle ← sumInWord low (width / 2)
  let next ← sumInWord middle 1
  return (middle, next)

/-- `narrow` with 64-bit words for its numbers.  There is no answer if a word is left. -/
def narrowInWords (profit : UInt64 → Query Amount) :
    Nat → UInt64 → UInt64 → Query (Option UInt64)
  | 0, low, _ => return some low
  | rounds + 1, low, high =>
      if low < high then
        match middleInWords low high with
        | none => return none
        | some (middle, next) => do
            let above ← profit next
            let here ← profit middle
            if here < above then narrowInWords profit rounds next high
            else narrowInWords profit rounds low middle
      else return some low

/-- `size` with 64-bit words for its multiples. -/
def sizeInWords (market : Market) (r : Route) (step : Amount) (params : SearchParams) :
    Query (Option Quote) := do
  let profit := fun multiple : UInt64 => do
    let quote ← r.quoteMultiple market step multiple.toNat
    return quote.profit
  match ← narrowInWords profit params.iterations.toNat 1 (max 1 params.mostSteps) with
  | some multiple =>
      let quote ← r.quoteMultiple market step multiple.toNat
      return some quote
  | none => return none

section Words

variable {lowWord highWord : UInt64}

/-- The middle lies below the upper end, so that neither it nor the next multiple leaves its
word. -/
theorem middleInWords_of_lt (h : lowWord < highWord) :
    ∃ middle next, middleInWords lowWord highWord = some (middle, next)
      ∧ middle.toNat = lowWord.toNat + (highWord.toNat - lowWord.toNat) / 2
      ∧ next.toNat = middle.toNat + 1 := by
  have hlt := UInt64.lt_iff_toNat_lt.1 h
  have hword := highWord.toNat_lt
  have hwidth : (highWord - lowWord).toNat = highWord.toNat - lowWord.toNat :=
    UInt64.toNat_sub_of_le _ _ (UInt64.le_of_lt h)
  have hhalf : ((highWord - lowWord) / 2).toNat = (highWord.toNat - lowWord.toNat) / 2 := by
    rw [UInt64.toNat_div, hwidth]
    rfl
  have hmiddle : (lowWord + (highWord - lowWord) / 2).toNat
      = lowWord.toNat + (highWord.toNat - lowWord.toNat) / 2 := by
    rw [UInt64.toNat_add, hhalf, Nat.mod_eq_of_lt (by omega)]
  have hnext : (lowWord + (highWord - lowWord) / 2 + 1).toNat
      = lowWord.toNat + (highWord.toNat - lowWord.toNat) / 2 + 1 := by
    rw [UInt64.toNat_add, hmiddle, UInt64.toNat_one, Nat.mod_eq_of_lt (by omega)]
  have hdifference : differenceInWord highWord lowWord = some (highWord - lowWord) :=
    if_pos (UInt64.le_of_lt h)
  have hsum : sumInWord lowWord ((highWord - lowWord) / 2)
      = some (lowWord + (highWord - lowWord) / 2) := by
    rw [sumInWord, hhalf, if_pos (by rw [UInt64.size]; omega)]
  have hbehind : sumInWord (lowWord + (highWord - lowWord) / 2) 1
      = some (lowWord + (highWord - lowWord) / 2 + 1) := by
    rw [sumInWord, hmiddle, UInt64.toNat_one, if_pos (by rw [UInt64.size]; omega)]
  refine ⟨_, _, ?_, hmiddle, hnext.trans (congrArg (· + 1) hmiddle.symm)⟩
  simp only [middleInWords, hdifference, hsum, hbehind, Option.bind_eq_bind, Option.bind_some]
  rfl

/-- No number of the search leaves its word, whatever the profits are. -/
theorem narrowInWords_eq (query : Nat → Query Amount) (rounds : Nat) (lowWord highWord : UInt64)
    (s : Store) :
    narrowInWords (fun n => query n.toNat) rounds lowWord highWord s
      = (narrow query rounds lowWord.toNat highWord.toNat s).map
        fun n => some (UInt64.ofNat n) := by
  induction rounds generalizing lowWord highWord with
  | zero =>
      rw [narrow, Query.pure_apply, Except.map, UInt64.ofNat_toNat]
      rfl
  | succ rounds ih =>
      rw [narrow, narrowInWords]
      by_cases hlt : lowWord < highWord
      · obtain ⟨middle, next, hwords, hmiddle, hnext⟩ := middleInWords_of_lt hlt
        rw [if_pos hlt, if_pos (UInt64.lt_iff_toNat_lt.1 hlt), hwords, ← hmiddle, ← hnext]
        dsimp only
        rw [Query.bind_apply, Query.bind_apply]
        cases query next.toNat s with
        | error e => rfl
        | ok above =>
            dsimp only [Except.bind]
            rw [Query.bind_apply, Query.bind_apply]
            cases query middle.toNat s with
            | error e => rfl
            | ok here =>
                dsimp only [Except.bind]
                split
                · exact ih next highWord
                · exact ih lowWord middle
      · rw [if_neg hlt, if_neg fun h => hlt (UInt64.lt_iff_toNat_lt.2 h), Query.pure_apply,
          Query.pure_apply, Except.map, UInt64.ofNat_toNat]

theorem toNat_max (a b : UInt64) : (max a b).toNat = max a.toNat b.toNat := by
  by_cases hle : a ≤ b
  · rw [Nat.max_eq_right (UInt64.le_iff_toNat_le.1 hle)]
    exact congrArg UInt64.toNat (if_pos hle)
  · rw [Nat.max_eq_left (Nat.le_of_not_le fun h => hle (UInt64.le_iff_toNat_le.2 h))]
    exact congrArg UInt64.toNat (if_neg hle)

/-- A cycle has the same size in words. -/
theorem sizeInWords_eq (market : Market) (r : Route) (step : Amount) (params : SearchParams)
    (s : Store) :
    r.sizeInWords market step params s = (r.size market step params s).map some := by
  have hgreatest : (max 1 params.mostSteps).toNat = params.greatestMultiple := toNat_max 1 _
  have hwords := narrowInWords_eq (fun n => do
    let quote ← r.quoteMultiple market step n
    return quote.profit) params.iterations.toNat 1 (max 1 params.mostSteps) s
  rw [UInt64.toNat_one, hgreatest] at hwords
  rw [size, sizeInWords, Query.bind_apply, Query.bind_apply, hwords,
    ← SearchParams.greatestMultiple]
  rcases hrun : narrow (fun n => do
    let quote ← r.quoteMultiple market step n
    return quote.profit) params.iterations.toNat 1 params.greatestMultiple s with e | n
  · rfl
  -- The multiple is at most the greatest one, which is a word.
  · have hmost : n ≤ params.greatestMultiple := (narrow_ok (Nat.le_max_left 1 _) hrun).2
    have hbound := (max 1 params.mostSteps).toNat_lt_size
    have hword : (UInt64.ofNat n).toNat = n := UInt64.toNat_ofNat_of_lt' (by omega)
    dsimp only [Except.map, Except.bind]
    rw [hword, Query.bind_apply]
    cases r.quoteMultiple market step n s <;> rfl

end Words

/-! ## The sized cycle -/

/-- **Sizing lands on a local peak.**  Where the cycle is quoted at every multiple from one to the
greatest, whatever the quotes are, it is sized at a multiple to which the profit has risen, unless
that is one.  With enough rounds for the range the profit does not rise behind it either, unless
it is the greatest; so if the profits have one peak, that is where it lands, the least of the
multiples that earn most.  No number on the way leaves a 64-bit word. -/
theorem size_peak (market : Market) (r : Route) (step : Amount) (params : SearchParams)
    (quotes : Nat → Quote)
    (hquotes : ∀ n, 1 ≤ n → n ≤ params.greatestMultiple →
      r.quoteMultiple market step n s = .ok (quotes n)) :
    ∃ n, 1 ≤ n ∧ n ≤ params.greatestMultiple
      ∧ r.size market step params s = .ok (quotes n)
      ∧ r.sizeInWords market step params s = .ok (some (quotes n))
      ∧ (n = 1 ∨ (quotes (n - 1)).profit < (quotes n).profit)
      ∧ (params.greatestMultiple ≤ 2 ^ params.iterations.toNat →
        (n = params.greatestMultiple ∨ (quotes (n + 1)).profit ≤ (quotes n).profit)
          ∧ ∀ peak, PeaksAt (fun m => (quotes m).profit) params.greatestMultiple peak →
            n = peak
              ∧ IsLeastBest (fun m => (quotes m).profit) params.greatestMultiple n) := by
  have hprofit : ∀ n, 1 ≤ n → n ≤ params.greatestMultiple →
      (do let quote ← r.quoteMultiple market step n; return quote.profit : Query Amount) s
        = .ok (quotes n).profit := by
    intro n hn hmost
    rw [Query.bind_of_ok (hquotes n hn hmost)]
    rfl
  have hone : 1 ≤ params.greatestMultiple := Nat.le_max_left _ _
  obtain ⟨n, high, hrun, hbracket, hwidth⟩ :=
    narrow_bracket hprofit (Bracket.whole hone) params.iterations.toNat
  have hordered := hbracket.ordered
  have hmost : n ≤ params.greatestMultiple := hordered.trans hbracket.last
  have hsize : r.size market step params s = .ok (quotes n) :=
    (Query.bind_of_ok hrun _).trans (hquotes n hbracket.first hmost)
  refine ⟨n, hbracket.first, hmost, hsize, ?_, hbracket.risen, fun henough => ?_⟩
  · rw [sizeInWords_eq, hsize]
    rfl
  -- As many rounds leave one multiple of the range.
  · have hsingle : high = n := by
      rw [Nat.div_eq_of_lt (by omega)] at hwidth
      omega
    rw [hsingle] at hbracket
    refine ⟨hbracket.settled, fun peak hpeak => ?_⟩
    obtain rfl := hbracket.eq_peak hpeak
    exact ⟨rfl, hpeak.isLeastBest⟩

/-! ## A peak between two pools -/

/-- What the round trip through the two pools that are out of step returns for an input. -/
def gapQuote (input : Amount) : Quote :=
  let bought := Simulation.payout input 1000 1000000
  let sold := Simulation.payout bought 1000000 1000000
  ⟨input, [bought, sold], sold.saturatingSub input⟩

theorem quoteMultiple_withPools (step : Amount) (n : Nat) (s : Store) :
    Simulation.roundTrip.quoteMultiple (Simulation.constantProduct []) step n
        (Simulation.withPools s) = .ok (gapQuote (step.times n)) := by
  have hquotes : quoteHops (Simulation.constantProduct []) (step.times n)
      Simulation.roundTrip.hops (Simulation.withPools s)
        = .ok (gapQuote (step.times n)).outputs :=
    Route.quoteHops_cons_ok.2 ⟨_, [_], Simulation.quote_near _ s,
      Route.quoteHops_cons_ok.2 ⟨_, [], Simulation.quote_far _ s, rfl, rfl⟩, rfl⟩
  exact Query.bind_of_ok hquotes _

/-- Of forty multiples of a thousand the fifteenth earns most, and six rounds find it.  Among all
the multiples of one that words can count, sixty-four rounds find a local peak. -/
theorem size_peak_withPools :
    Simulation.roundTrip.size (Simulation.constantProduct []) 1000 ⟨1, 3, 6, 40, false⟩
        (Simulation.withPools Store.empty) = .ok ⟨15000, [937323, 483073], 468073⟩
      ∧ ∃ n, Simulation.roundTrip.size (Simulation.constantProduct []) 1
            ⟨1, 3, 64, 18446744073709551615, false⟩ (Simulation.withPools Store.empty)
          = .ok (gapQuote (Amount.times 1 n))
        ∧ (n = 1 ∨ (gapQuote (Amount.times 1 (n - 1))).profit
          < (gapQuote (Amount.times 1 n)).profit)
        ∧ (n = 18446744073709551615 ∨ (gapQuote (Amount.times 1 (n + 1))).profit
          ≤ (gapQuote (Amount.times 1 n)).profit) := by
  obtain ⟨n, -, -, hsize, -, -, henough⟩ := size_peak (Simulation.constantProduct [])
    Simulation.roundTrip 1000 ⟨1, 3, 6, 40, false⟩ _
    fun n _ _ => quoteMultiple_withPools 1000 n Store.empty
  have hpeak : PeaksAt (fun n => (gapQuote (Amount.times 1000 n)).profit) 40 15 := by
    refine ⟨by decide, by decide, fun n hn hlt => ?_, fun n hn hlt => ?_⟩
    · exact (by decide +kernel : ∀ n < 15, 1 ≤ n →
        (gapQuote (Amount.times 1000 n)).profit < (gapQuote (Amount.times 1000 (n + 1))).profit)
        n hlt hn
    · exact (by decide +kernel : ∀ n < 40, 15 ≤ n →
        (gapQuote (Amount.times 1000 (n + 1))).profit ≤ (gapQuote (Amount.times 1000 n)).profit)
        n hlt hn
  obtain ⟨rfl, -⟩ := (henough (by decide)).2 15 hpeak
  obtain ⟨m, -, -, hsize', -, hrisen, henough'⟩ := size_peak (Simulation.constantProduct [])
    Simulation.roundTrip 1 ⟨1, 3, 64, 18446744073709551615, false⟩ _
    fun n _ _ => quoteMultiple_withPools 1 n Store.empty
  refine ⟨hsize.trans (by decide +kernel), m, hsize', hrisen, ?_⟩
  exact (henough' (by decide)).1

end Route

end Backrun
