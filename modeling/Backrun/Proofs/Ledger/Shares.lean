import Backrun.Proofs.Config.Schedules
import Backrun.Proofs.Cycle.Recorded
import Backrun.Proofs.Genesis.Restart

/-!
# The developer's share of a profit

From an accepted schedule to the coins of a profit: the age of the module in whole days picks one
tier, its share is a whole number of basis points, and the profit is split by that number.  A
schedule that was not accepted may have days without basis points; `Divisible` says that today is
none of them.

No step rounds but the split itself, which rounds the developer's part down.
-/

namespace Backrun

/-! ## The age in days -/

namespace Instant

/-- The age is the time between the instants in whole days, cut off towards zero, and zero before
the first instant. -/
theorem cast_daysSince (later earlier : Instant) :
    (later.daysSince earlier : ℤ)
      = max 0 ((later.nanosSince earlier).tdiv (secondsPerDay * nanosPerSecond : ℕ)) := by
  rw [daysSince]
  rcases Int.le_total 0 (later.nanosSince earlier) with hafter | hbefore
  · have hquotient : 0 ≤ (later.nanosSince earlier).tdiv (secondsPerDay * nanosPerSecond : ℕ) :=
      Int.tdiv_nonneg hafter (Int.natCast_nonneg _)
    rw [Int.max_eq_right hquotient, Int.tdiv_eq_ediv_of_nonneg hafter, Int.natCast_ediv,
      Int.toNat_of_nonneg hafter]
  · have hquotient : (later.nanosSince earlier).tdiv (secondsPerDay * nanosPerSecond : ℕ) ≤ 0 := by
      rw [← Int.neg_neg (later.nanosSince earlier), Int.neg_tdiv]
      exact Int.neg_nonpos_of_nonneg
        (Int.tdiv_nonneg (Int.neg_nonneg_of_nonpos hbefore) (Int.natCast_nonneg _))
    rw [Int.max_eq_left hquotient, Int.toNat_of_nonpos hbefore, Nat.zero_div, Nat.cast_zero]

end Instant

/-! ## Splitting -/

namespace Amount

/-- The share in numbers, rounded down; where the product is no amount, whole ten-thousandths are
shared. -/
theorem toNat_share (a : Amount) {basisPoints : Nat} (h : basisPoints ≤ wholeInBasisPoints) :
    (a.share basisPoints).toNat
      = if a.toNat * basisPoints < bound then a.toNat * basisPoints / wholeInBasisPoints
        else a.toNat / wholeInBasisPoints * basisPoints := by
  have hwhole : (BitVec.ofNat 256 wholeInBasisPoints).toNat = wholeInBasisPoints := rfl
  have hpoints : (BitVec.ofNat 256 (min basisPoints wholeInBasisPoints)).toNat = basisPoints := by
    rw [Nat.min_eq_left h, BitVec.toNat_ofNat]
    exact Nat.mod_eq_of_lt (Nat.lt_of_le_of_lt h (by decide))
  rw [share]
  generalize BitVec.ofNat 256 (min basisPoints wholeInBasisPoints) = points at hpoints
  subst hpoints
  by_cases hfits : a.toNat * points.toNat < bound
  · rw [if_pos hfits, checkedMul, if_pos hfits]
    dsimp only
    rw [BitVec.toNat_udiv, hwhole, toNat_mul hfits]
  · rw [if_neg hfits, checkedMul, if_neg hfits]
    dsimp only
    have hless : a.toNat / wholeInBasisPoints * points.toNat ≤ a.toNat := by
      exact (Nat.mul_le_mul_left _ h).trans (Nat.div_mul_le_self _ _)
    rw [BitVec.toNat_mul, BitVec.toNat_udiv, hwhole]
    exact Nat.mod_eq_of_lt (Nat.lt_of_le_of_lt hless a.isLt)

end Amount

/-- A profit in two parts by basis points, in numbers: the developer's part rounds down, and the
treasury has the rest. -/
structure ProfitSplit.Divides (split : ProfitSplit) (profit : Coin) (basisPoints : Nat) : Prop where
  splits : split.Splits profit
  developer : split.developer.amount.toNat
    = if profit.amount.toNat * basisPoints < Amount.bound
      then profit.amount.toNat * basisPoints / wholeInBasisPoints
      else profit.amount.toNat / wholeInBasisPoints * basisPoints

theorem Coin.split_divides (profit : Coin) {basisPoints : Nat}
    (h : basisPoints ≤ wholeInBasisPoints) :
    (profit.split basisPoints).Divides profit basisPoints :=
  ⟨profit.split_splits basisPoints, Amount.toNat_share profit.amount h⟩

/-! ## Days on which a profit can be divided -/

namespace Ledger

variable {s t : Store} {now : Instant} {profit : Coin} {split : ProfitSplit}

/-- The share of the day has basis points, where there are a configuration and a genesis time to
tell the share.  On any other day an engine stops over a booking. -/
def Divisible (now : Instant) (s : Store) : Prop :=
  ∀ config days, storedConfig s = .ok config → daysSinceGenesis now s = .ok days →
    config.schedule.basisPoints? days ≠ none

/-- A profit is split by the basis points of the day. -/
def Divided (now : Instant) (profit : Coin) (split : ProfitSplit) (s : Store) : Prop :=
  ∃ config days points, storedConfig s = .ok config ∧ daysSinceGenesis now s = .ok days
    ∧ config.schedule.basisPoints? days = some points ∧ split = profit.split points

theorem Divisible.congr (h : Divisible now s) (hconfig : t.get Key.config = s.get Key.config)
    (htime : t.get Key.genesisTime = s.get Key.genesisTime) : Divisible now t := by
  intro config days hstored hdays
  exact h config days ((Query.load_congr hconfig _).symm.trans hstored)
    ((daysSinceGenesis_congr htime now).symm.trans hdays)

/-- What is planned on such a day is the split by its basis points. -/
theorem Divisible.divided (h : Divisible now s) (hplan : planned now profit s = .ok split) :
    Divided now profit split s := by
  obtain ⟨config, days, hconfig, hdays, rfl⟩ := planned_ok.1 hplan
  obtain ⟨points, hpoints⟩ := Option.ne_none_iff_exists'.1 (h config days hconfig hdays)
  refine ⟨config, days, points, hconfig, hdays, hpoints, ?_⟩
  rw [FeeSchedule.basisPoints, hpoints, Option.getD_some]

/-- Under a valid schedule every day is such a day. -/
theorem divisible_of_valid
    (h : ∀ config, storedConfig s = .ok config → config.schedule.validate = .ok ())
    (now : Instant) : Divisible now s := by
  intro config days hconfig _
  rw [(FeeSchedule.sound_of_validate (h config hconfig)).basisPoints?_eq days]
  exact Option.some_ne_none _

end Ledger

theorem Coherent.divisible {s : Store} {config : EngineConfig} {counted : PointCounter}
    (h : Coherent s.get config counted) (now : Instant) : Ledger.Divisible now s := by
  refine Ledger.divisible_of_valid (fun stored hstored => ?_) now
  obtain rfl := Except.ok.inj (h.budget.storedConfig_eq.symm.trans hstored)
  obtain ⟨-, -, -, -, -, hschedule⟩ := EngineConfig.validate_ok.1 h.budget.valid
  exact hschedule

/-! ## Booking -/

/-- What booking returns is the profit split by the basis points of the day. -/
theorem Ledger.split_of_book {s t : Store} {config : EngineConfig} {genesis now : Instant}
    {profit : Coin} {split : ProfitSplit} (hconfig : storedConfig s = .ok config)
    (hgenesis : genesisTime s = .ok genesis) (h : (book now profit).perform s = (.ok split, t)) :
    split = profit.split (config.schedule.basisPoints (now.daysSince genesis)) := by
  obtain ⟨config', days, hconfig', hdays, hsplit⟩ := planned_ok.1 (book_iff.1 h).enters.planned
  rw [hconfig] at hconfig'
  rw [daysSinceGenesis_ok hgenesis] at hdays
  cases hconfig'
  cases hdays
  exact hsplit.symm

/-- **A schedule from its check to the books.**  Under an accepted schedule the age of the module
in whole days is spanned by exactly one tier; the basis points of that day are ten thousand times
the share of the tier, which loses nothing and stays within the whole; and a profit is divided by
them, whatever the store, and is booked where books in order have room for it.  A schedule is
rejected exactly if it has a fault, and for one that it has. -/
theorem FeeSchedule.booked_by_tier (schedule : FeeSchedule) :
    (schedule.validate = .ok () → ∀ genesis now : Instant, ∃ i tier,
      (now.daysSince genesis : ℤ)
          = max 0 ((now.nanosSince genesis).tdiv (secondsPerDay * nanosPerSecond : ℕ))
        ∧ (∀ j, schedule.Spans (now.daysSince genesis) j ↔ j = i)
        ∧ schedule.tiers[i]? = some tier ∧ tier.untilDay ≠ some 0
        ∧ (schedule.basisPoints (now.daysSince genesis) : ℚ)
          = wholeInBasisPoints * tier.share.quantity
        ∧ schedule.basisPoints (now.daysSince genesis) ≤ wholeInBasisPoints
        ∧ tier.share.coefficient * wholeInBasisPoints < Decimal.coefficientBound
        ∧ ∀ (profit : Coin) (s : Store) (config : EngineConfig), storedConfig s = .ok config →
          config.schedule = schedule → Ledger.genesisTime s = .ok genesis →
          (∀ split t, (Ledger.book now profit).perform s = (.ok split, t) →
            split.Divides profit (schedule.basisPoints (now.daysSince genesis)))
          ∧ (Booked s.get →
            (Ledger.earned s.get profit.denom).toNat + profit.amount.toNat < Amount.bound →
            ∃ split t, (Ledger.book now profit).perform s = (.ok split, t)
              ∧ (Ledger.owed t.get profit.denom).toNat
                = (Ledger.owed s.get profit.denom).toNat + split.developer.amount.toNat))
      ∧ (∀ f, schedule.validate = .error f → schedule.HasFault f)
      ∧ ∀ f, schedule.HasFault f → ∃ f', schedule.validate = .error f' := by
  refine ⟨fun hvalid genesis now => ?_, fun f => FeeSchedule.fault_of_validate, fun f hfault => ?_⟩
  · have hsound := FeeSchedule.sound_of_validate hvalid
    obtain ⟨i, tier, hspans, htier, hshare, hpoints⟩ :=
      hsound.basisPoints_spans (now.daysSince genesis)
    have hwhole : schedule.basisPoints (now.daysSince genesis) ≤ wholeInBasisPoints :=
      hpoints ▸ hshare.basisPoints_le
    refine ⟨i, tier, now.cast_daysSince genesis, hspans, htier,
      fun hzero => FeeSchedule.not_spans_of_zero htier hzero ((hspans i).2 rfl), ?_, hwhole,
      Nat.lt_of_le_of_lt hshare.scaled_le (by decide), ?_⟩
    · rw [hpoints]
      exact hshare.cast_basisPoints
    · rintro profit s config hconfig rfl hgenesis
      refine ⟨fun split t hbook => ?_, fun hbooked hroom => ?_⟩
      · rw [Ledger.split_of_book hconfig hgenesis hbook]
        exact profit.split_divides hwhole
      · obtain ⟨split, t, hbook⟩ := Ledger.book_of_bookable hconfig
          (Ledger.daysSinceGenesis_ok hgenesis now) (hbooked.fees.legible Coin.faithful)
          (hbooked.profits.legible Coin.faithful) (hbooked.bookable now hroom)
        obtain ⟨-, howed, -⟩ := hbooked.book hbook
        refine ⟨split, t, hbook, ?_⟩
        rw [howed profit.denom, if_pos rfl]
  · cases hcheck : schedule.validate with
    | error f' => exact ⟨f', rfl⟩
    | ok => exact absurd hfault (FeeSchedule.sound_of_validate hcheck).not_fault

/-- On the first day of its second year a module books a tenth for its developer, and a schedule
without tiers is rejected. -/
theorem FeeSchedule.booked_by_tier_standard :
    ∃ s split t, storedConfig s = .ok .standard ∧ Ledger.genesisTime s = .ok .epoch
      ∧ (Ledger.book { day := 365, second := 0, nanos := 0 } ⟨Simulation.osmo, 10007⟩).perform s
        = (.ok split, t)
      ∧ split.developer.amount.toNat = 1000 ∧ split.treasury.amount.toNat = 9007
      ∧ ∃ f, FeeSchedule.validate ⟨[]⟩ = .error f := by
  have hgenesis : Genesis.standard.Valid := Genesis.validate_ok.1 (by decide +kernel)
  obtain ⟨s, _, hs, hholds, -⟩ := Genesis.perform_store hgenesis Store.empty fun _ _ => rfl
  have hcoherent := Genesis.coherent_of_perform_store hs
  have hconfig : storedConfig s = .ok .standard := hcoherent.budget.storedConfig_eq
  have htime : Ledger.genesisTime s = .ok .epoch := Query.load_of_get (Instant.faithful .epoch)
    (hholds.time.get List.mem_cons_self rfl) _
  have hearned : Ledger.earned s.get Simulation.osmo = 0 := hholds.earned_eq Simulation.osmo
  obtain ⟨_, _, -, -, -, -, -, -, -, hbooks⟩ :=
    (booked_by_tier .standard).1 (by decide +kernel) .epoch { day := 365, second := 0, nanos := 0 }
  obtain ⟨hdivides, hsucceeds⟩ := hbooks ⟨Simulation.osmo, 10007⟩ s .standard hconfig rfl htime
  obtain ⟨split, t, hbook, -⟩ := hsucceeds hcoherent.books (by rw [hearned]; decide)
  obtain ⟨⟨-, -, hwhole⟩, hdeveloper⟩ := hdivides split t hbook
  have hamount : (10007 : Amount).toNat = 10007 := by decide
  have hpoints : FeeSchedule.standard.basisPoints
      (Instant.daysSince { day := 365, second := 0, nanos := 0 } .epoch) = 1000 := by decide +kernel
  rw [hpoints, hamount, if_pos (by decide)] at hdeveloper
  have hthousand : split.developer.amount.toNat = 1000 := hdeveloper
  refine ⟨s, split, t, hconfig, htime, hbook, hthousand, ?_,
    (booked_by_tier ⟨[]⟩).2.2 .empty (.empty rfl)⟩
  rw [hthousand, hamount] at hwhole
  omega

end Backrun
