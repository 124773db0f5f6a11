import Backrun.Proofs.Config.Valid
import Mathlib.Algebra.Order.Field.Rat
import Mathlib.Data.Nat.Cast.Field
import Mathlib.Tactic.NormNum
import Mathlib.Tactic.Positivity
import Mathlib.Tactic.Ring

/-!
# Fee schedules by what they say

`FeeSchedule.Sound` is what the check of a schedule accepts, and `FeeSchedule.HasFault` what it
rejects.  The tiers of a sound schedule split the days into consecutive intervals: each day is in
the interval of exactly one tier, which is the first one that covers it.

Shares are compared as rational numbers.  A sound share is a whole number of basis points.
-/

namespace Backrun

/-! ## Fractions as numbers -/

namespace Decimal

/-- The number that a fraction stands for. -/
def quantity (d : Decimal) : ℚ :=
  (if d.negative then -(d.coefficient : ℚ) else d.coefficient) / 10 ^ d.places

theorem quantity_of_negative {d : Decimal} (h : d.negative = true) :
    d.quantity = -(d.coefficient : ℚ) / 10 ^ d.places := by rw [quantity, if_pos h]

theorem quantity_of_nonnegative {d : Decimal} (h : d.negative = false) :
    d.quantity = (d.coefficient : ℚ) / 10 ^ d.places := by
  rw [quantity, if_neg (Bool.eq_false_iff.1 h)]

theorem isNegative_iff (d : Decimal) : d.isNegative = true ↔ d.quantity < 0 := by
  have hscale : (0 : ℚ) < 10 ^ d.places := by positivity
  cases hneg : d.negative with
  | true =>
      rw [quantity_of_negative hneg, div_lt_iff₀ hscale, zero_mul, neg_lt_zero, Nat.cast_pos,
        isNegative, hneg, Bool.true_and, bne_iff_ne, Nat.pos_iff_ne_zero]
  | false =>
      have hnonneg : (0 : ℚ) ≤ (d.coefficient : ℚ) / 10 ^ d.places := by positivity
      rw [quantity_of_nonnegative hneg, isNegative, hneg]
      exact ⟨nofun, fun h => absurd h (not_lt.2 hnonneg)⟩

theorem exceedsOne_iff (d : Decimal) : d.exceedsOne = true ↔ 1 < d.quantity := by
  have hscale : (0 : ℚ) < 10 ^ d.places := by positivity
  cases hneg : d.negative with
  | true =>
      have hnonpos : -(d.coefficient : ℚ) / 10 ^ d.places ≤ 0 := by
        rw [neg_div, neg_nonpos]
        positivity
      rw [quantity_of_negative hneg, exceedsOne, hneg]
      exact ⟨nofun, fun h => absurd (h.trans_le hnonpos) (by norm_num)⟩
  | false =>
      have hcast : ((10 ^ d.places : ℕ) : ℚ) = 10 ^ d.places := by push_cast; rfl
      rw [quantity_of_nonnegative hneg, lt_div_iff₀ hscale, one_mul, ← hcast, Nat.cast_lt,
        exceedsOne, hneg, Bool.not_false, Bool.true_and, decide_eq_true_iff]
      rfl

end Decimal

/-! ## Shares -/

namespace FeeTier

/-- A share between zero and one with at most four places. -/
structure SoundShare (t : FeeTier) : Prop where
  nonneg : 0 ≤ t.share.quantity
  le_one : t.share.quantity ≤ 1
  places_le : t.share.places ≤ 4

theorem validateShare_ok {t : FeeTier} : t.validateShare = .ok () ↔ t.SoundShare := by
  rw [validateShare, Verdict.reject_ok, Verdict.reject_ok, Bool.or_eq_true,
    Decimal.isNegative_iff, Decimal.exceedsOne_iff, not_or, not_lt, not_lt, Nat.not_lt]
  constructor
  · rintro ⟨⟨hzero, hone⟩, hplaces, -⟩
    exact ⟨hzero, hone, hplaces⟩
  · rintro ⟨hzero, hone, hplaces⟩
    exact ⟨⟨hzero, hone⟩, hplaces, rfl⟩

namespace SoundShare

variable {t : FeeTier}

/-- A sound share has no sign: not even its zero, which has too few places for one. -/
theorem negative_eq (h : t.SoundShare) : t.share.negative = false := by
  cases hneg : t.share.negative with
  | false => rfl
  | true =>
      have hplaces := h.places_le
      have hzero : ¬ t.share.SignedZero := Decimal.not_signedZero_of_places (by omega)
      have hbelow : t.share.quantity < 0 := by
        rw [← Decimal.isNegative_iff, Decimal.isNegative, hneg, Bool.true_and, bne_iff_ne]
        exact fun hcoefficient => hzero ⟨hneg, hcoefficient⟩
      exact absurd h.nonneg (not_le.2 hbelow)

theorem quantity_eq (h : t.SoundShare) :
    t.share.quantity = (t.share.coefficient : ℚ) / 10 ^ t.share.places :=
  Decimal.quantity_of_nonnegative h.negative_eq

theorem coefficient_le (h : t.SoundShare) : t.share.coefficient ≤ 10 ^ t.share.places := by
  have hone := h.le_one
  rw [h.quantity_eq, div_le_one (by positivity)] at hone
  exact_mod_cast hone

/-- The product with the whole is far from leaving the coefficients. -/
theorem scaled_le (h : t.SoundShare) : t.share.coefficient * wholeInBasisPoints ≤ 10 ^ 8 := by
  calc t.share.coefficient * wholeInBasisPoints
      ≤ 10 ^ t.share.places * 10 ^ 4 := Nat.mul_le_mul_right _ h.coefficient_le
    _ ≤ 10 ^ 4 * 10 ^ 4 :=
        Nat.mul_le_mul_right _ (Nat.pow_le_pow_right (by decide) h.places_le)

/-- Four places are enough to divide without a rest. -/
theorem dvd_scaled (h : t.SoundShare) :
    10 ^ t.share.places ∣ t.share.coefficient * wholeInBasisPoints :=
  Dvd.dvd.mul_left (pow_dvd_pow 10 h.places_le) _

/-- The basis points of a sound share are its quotient itself: there is no sign, no word is left
and the whole is not exceeded. -/
theorem basisPoints?_eq (h : t.SoundShare) : t.share.basisPoints?
    = some (t.share.coefficient * wholeInBasisPoints / 10 ^ t.share.places) := by
  have hwhole : t.share.coefficient * wholeInBasisPoints / 10 ^ t.share.places
      ≤ wholeInBasisPoints := by
    refine Nat.div_le_of_le_mul ?_
    exact Nat.mul_le_mul_right _ h.coefficient_le
  have hword : t.share.coefficient * wholeInBasisPoints / 10 ^ t.share.places < UInt32.size :=
    Nat.lt_of_le_of_lt hwhole (by decide)
  have hfits : ¬ Decimal.coefficientBound
      ≤ t.share.coefficient * wholeInBasisPoints / 10 ^ t.share.places :=
    Nat.not_le.2 (Nat.lt_of_le_of_lt hwhole (by decide))
  rw [Decimal.basisPoints?, h.negative_eq]
  exact (if_neg hfits).trans ((if_pos hword).trans (congrArg some (Nat.min_eq_left hwhole)))

theorem basisPoints_eq (h : t.SoundShare) :
    t.share.basisPoints = t.share.coefficient * wholeInBasisPoints / 10 ^ t.share.places := by
  rw [Decimal.basisPoints, h.basisPoints?_eq, Option.getD_some]

/-- A sound share is a whole number of basis points. -/
theorem cast_basisPoints (h : t.SoundShare) :
    (t.share.basisPoints : ℚ) = wholeInBasisPoints * t.share.quantity := by
  have hscale : ((10 ^ t.share.places : ℕ) : ℚ) ≠ 0 := by positivity
  rw [h.basisPoints_eq, Nat.cast_div h.dvd_scaled hscale, h.quantity_eq]
  push_cast
  ring

theorem basisPoints_le (h : t.SoundShare) : t.share.basisPoints ≤ wholeInBasisPoints := by
  have hone := h.le_one
  have hcast : (t.share.basisPoints : ℚ) ≤ wholeInBasisPoints := by
    rw [h.cast_basisPoints]
    exact mul_le_of_le_one_right (by positivity) hone
  exact_mod_cast hcast

end SoundShare

theorem covers_iff {t : FeeTier} {day : Nat} :
    t.covers day = true ↔ ∀ bound ∈ t.untilDay, day < bound.toNat := by
  rw [covers]
  cases t.untilDay with
  | none => exact ⟨fun _ => nofun, fun _ => rfl⟩
  | some bound => simp

end FeeTier

/-! ## Schedules -/

namespace FeeSchedule

/-- A schedule with sound shares and strictly increasing bounds, where the last tier and no other
one is unbounded. -/
structure Sound (s : FeeSchedule) : Prop where
  last : ∃ t, s.tiers.getLast? = some t ∧ t.untilDay = none
  earlier : ∀ t ∈ s.tiers.dropLast, t.untilDay ≠ none
  increasing : s.tiers.Pairwise fun t u => ∀ a ∈ t.untilDay, ∀ b ∈ u.untilDay, a < b
  shares : ∀ t ∈ s.tiers, t.SoundShare

/-- What may be wrong with a schedule, each under the name of its fault. -/
inductive HasFault (s : FeeSchedule) : ScheduleFault → Prop where
  | empty (hnone : s.tiers = []) : HasFault s .empty
  | lastBounded {t : FeeTier} (hlast : s.tiers.getLast? = some t) (hbounded : t.untilDay ≠ none) :
      HasFault s .lastBounded
  | outside {t : FeeTier} (ht : t ∈ s.tiers)
      (hrange : t.share.quantity < 0 ∨ 1 < t.share.quantity) : HasFault s (.outside t.share)
  | tooFine {t : FeeTier} (ht : t ∈ s.tiers) (hplaces : 4 < t.share.places) :
      HasFault s (.tooFine t.share)
  | notIncreasing {t u : FeeTier} {a b : UInt64} (hpair : [t, u].Sublist s.tiers)
      (ha : t.untilDay = some a) (hb : u.untilDay = some b) (hle : b ≤ a) :
      HasFault s .notIncreasing
  | openBeforeLast {t : FeeTier} (ht : t ∈ s.tiers.dropLast) (hopen : t.untilDay = none) :
      HasFault s .openBeforeLast

variable {s : FeeSchedule} {tiers : List FeeTier} {previous : Option UInt64} {f : ScheduleFault}

/-- Accepted tiers are in order, and behind the bound before them. -/
theorem inOrder_of_validateTiers (h : validateTiers previous tiers = .ok ()) :
    (∀ t ∈ tiers.dropLast, t.untilDay ≠ none)
      ∧ (tiers.Pairwise fun t u => ∀ a ∈ t.untilDay, ∀ b ∈ u.untilDay, a < b)
      ∧ ∀ p ∈ previous, ∀ t ∈ tiers, ∀ b ∈ t.untilDay, p < b := by
  induction tiers generalizing previous with
  | nil =>
      exact ⟨fun t ht => absurd ht List.not_mem_nil, .nil,
        fun p _ t ht => absurd ht List.not_mem_nil⟩
  | cons tier rest ih =>
      obtain ⟨-, ⟨day, hday, hfirst, hrest⟩ | ⟨hopen, rfl⟩⟩ := validateTiers_cons_ok.1 h
      · obtain ⟨hearlier, hincreasing, habove⟩ := ih hrest
        have habove : ∀ t ∈ rest, ∀ b ∈ t.untilDay, day < b := habove day rfl
        refine ⟨fun t ht => ?_, List.pairwise_cons.2 ⟨fun u hu a ha b hb => ?_, hincreasing⟩,
          fun p hp t ht b hb => ?_⟩
        · cases rest with
          | nil => exact absurd ht List.not_mem_nil
          | cons next rest =>
              rcases List.mem_cons.1 ht with rfl | ht
              · rw [hday]
                exact Option.some_ne_none day
              · exact hearlier t ht
        · obtain rfl : day = a := Option.some.inj (hday.symm.trans ha)
          exact habove u hu b hb
        · rcases List.mem_cons.1 ht with rfl | ht
          · obtain rfl : day = b := Option.some.inj (hday.symm.trans hb)
            exact hfirst p hp
          · exact UInt64.lt_trans (hfirst p hp) (habove t ht b hb)
      -- An unbounded tier is accepted alone.
      · refine ⟨fun t ht => absurd ht List.not_mem_nil, List.pairwise_singleton _ _,
          fun p _ t ht b hb => ?_⟩
        rw [List.mem_singleton.1 ht, hopen] at hb
        cases hb

theorem sound_of_validate (h : s.validate = .ok ()) : s.Sound := by
  have hshares : ∀ t ∈ s.tiers, t.SoundShare := fun t ht =>
    FeeTier.validateShare_ok.1 (validateShare_of_valid h t ht)
  rw [validate] at h
  split at h
  · simp at h
  · rename_i last hlast
    rw [Verdict.reject_ok, Bool.not_eq_true, Option.isSome_eq_false_iff, Option.isNone_iff_eq_none]
      at h
    obtain ⟨hearlier, hincreasing, -⟩ := inOrder_of_validateTiers h.2
    exact ⟨⟨last, hlast, h.1⟩, hearlier, hincreasing, hshares⟩

theorem fault_of_validateShare {t : FeeTier} (ht : t ∈ s.tiers) (h : t.validateShare = .error f) :
    s.HasFault f := by
  rw [FeeTier.validateShare] at h
  split at h
  · rename_i hrange
    rw [Bool.or_eq_true, Decimal.isNegative_iff, Decimal.exceedsOne_iff] at hrange
    cases h
    exact .outside ht hrange
  · split at h
    · rename_i hplaces
      cases h
      exact .tooFine ht hplaces
    · cases h

/-- The fault that the walk over the tiers names is one of the schedule, given that the walk
remembers the bound of the tier that it has passed last. -/
theorem fault_of_validateTiers {passed : List FeeTier}
    (hprevious : ∀ p ∈ previous, ∃ u ∈ passed, u.untilDay = some p)
    (h : validateTiers previous tiers = .error f) : HasFault ⟨passed ++ tiers⟩ f := by
  induction tiers generalizing previous passed with
  | nil => cases h
  | cons tier rest ih =>
      have htier : tier ∈ passed ++ tier :: rest :=
        List.mem_append_right _ List.mem_cons_self
      rw [validateTiers] at h
      split at h
      · rename_i fault _ hshare
        cases h
        exact fault_of_validateShare htier hshare
      · rename_i day _ hday
        split at h
        · rename_i hany
          cases h
          obtain ⟨p, hp, hle⟩ := (Option.any_eq_true _ _).1 hany
          obtain ⟨u, hu, hbound⟩ := hprevious p hp
          have hpair : [u, tier].Sublist (passed ++ tier :: rest) :=
            (List.singleton_sublist.2 hu).append (List.singleton_sublist.2 List.mem_cons_self)
          exact .notIncreasing hpair hbound hday (of_decide_eq_true hle)
        · rw [← List.singleton_append, ← List.append_assoc]
          refine ih (fun p hp => ⟨tier, by simp, ?_⟩) h
          rw [hday, Option.mem_some.1 hp]
      · rename_i hopen
        split at h
        · cases h
        · rename_i hmore
          cases h
          refine .openBeforeLast (t := tier) ?_ hopen
          have hne : rest ≠ [] := fun hnil => hmore (List.isEmpty_iff.2 hnil)
          show tier ∈ (passed ++ tier :: rest).dropLast
          rw [List.dropLast_append_of_ne_nil (List.cons_ne_nil _ _),
            List.dropLast_cons_of_ne_nil hne]
          exact List.mem_append_right _ List.mem_cons_self

/-- A schedule is rejected for a fault that it has. -/
theorem fault_of_validate (h : s.validate = .error f) : s.HasFault f := by
  rw [validate] at h
  split at h
  · rename_i hnone
    cases h
    exact .empty (List.getLast?_eq_none_iff.1 hnone)
  · rename_i last hlast
    split at h
    · rename_i hbounded
      cases h
      exact .lastBounded hlast (Option.isSome_iff_ne_none.1 hbounded)
    · have hstart : ∀ p ∈ (none : Option UInt64), ∃ u ∈ ([] : List FeeTier), u.untilDay = some p :=
        fun p hp => absurd hp (Option.not_mem_none p)
      exact fault_of_validateTiers hstart h

/-- A sound schedule has no fault. -/
theorem Sound.not_fault (h : s.Sound) : ¬ s.HasFault f := by
  obtain ⟨last, hlast, hopen⟩ := h.last
  intro hfault
  cases hfault with
  | empty hnone =>
      rw [hnone] at hlast
      cases hlast
  | lastBounded hlast' hbounded =>
      rw [hlast] at hlast'
      cases hlast'
      exact hbounded hopen
  | outside ht hrange =>
      exact hrange.elim (not_lt.2 (h.shares _ ht).nonneg) (not_lt.2 (h.shares _ ht).le_one)
  | tooFine ht hplaces => exact absurd (h.shares _ ht).places_le (Nat.not_le.2 hplaces)
  | notIncreasing hpair ha hb hle =>
      have hlt := List.pairwise_pair.1 (h.increasing.sublist hpair) _ ha _ hb
      exact UInt64.not_lt.2 hle hlt
  | openBeforeLast ht hopen => exact h.earlier _ ht hopen

/-! ## The tier of a day -/

/-- The bound of the tier before the one at a place, zero before the first one. -/
def start (s : FeeSchedule) : Nat → Nat
  | 0 => 0
  | i + 1 => ((s.tiers[i]?.bind FeeTier.untilDay).map UInt64.toNat).getD 0

/-- Whether a day is in the interval of the tier at a place: no earlier than the bound before it,
and earlier than its own bound if it has one. -/
def Spans (s : FeeSchedule) (day i : Nat) : Prop :=
  s.start i ≤ day ∧ ∃ t, s.tiers[i]? = some t ∧ ∀ bound ∈ t.untilDay, day < bound.toNat

/-- A tier of no days spans none of them. -/
theorem not_spans_of_zero {t : FeeTier} {day i : Nat} (ht : s.tiers[i]? = some t)
    (hzero : t.untilDay = some 0) : ¬ s.Spans day i := by
  rintro ⟨-, t', ht', hbound⟩
  rw [ht] at ht'
  cases ht'
  exact absurd (hbound 0 hzero) (Nat.not_lt_zero day)

namespace Sound

variable {t u : FeeTier} {day i j : Nat}

theorem untilDay_ne_none (h : s.Sound) (ht : s.tiers[i]? = some t)
    (hi : i + 1 < s.tiers.length) : t.untilDay ≠ none := by
  refine h.earlier t (List.mem_of_getElem? (i := i) ?_)
  rw [List.getElem?_dropLast, if_pos (by omega), ht]

theorem bound_lt (h : s.Sound) (hij : i < j) {a b : UInt64} (ht : s.tiers[i]? = some t)
    (hu : s.tiers[j]? = some u) (ha : t.untilDay = some a) (hb : u.untilDay = some b) : a < b := by
  obtain ⟨hi, rfl⟩ := List.getElem?_eq_some_iff.1 ht
  obtain ⟨hj, rfl⟩ := List.getElem?_eq_some_iff.1 hu
  exact List.pairwise_iff_getElem.1 h.increasing i j hi hj hij a ha b hb

/-- The days of a tier are those that it covers and no tier before it does. -/
theorem spans_iff (h : s.Sound) :
    s.Spans day i ↔ ∃ t, s.tiers[i]? = some t ∧ t.covers day = true
      ∧ ∀ j < i, ∀ u, s.tiers[j]? = some u → u.covers day = false := by
  constructor
  · rintro ⟨hstart, t, ht, hbound⟩
    refine ⟨t, ht, FeeTier.covers_iff.2 hbound, fun j hji u hu => ?_⟩
    -- The bound of the tier just before is no later than the day, and no bound is greater before.
    obtain ⟨k, rfl⟩ : ∃ k, i = k + 1 := ⟨i - 1, by omega⟩
    have hlength : k + 1 < s.tiers.length := (List.getElem?_eq_some_iff.1 ht).1
    have hw : s.tiers[k]? = some s.tiers[k] := List.getElem?_eq_getElem (by omega)
    obtain ⟨b, hb⟩ := Option.ne_none_iff_exists'.1 (h.untilDay_ne_none hw hlength)
    obtain ⟨a, ha⟩ := Option.ne_none_iff_exists'.1 (h.untilDay_ne_none hu (by omega))
    have hbelow : b.toNat ≤ day := by
      rw [start, hw, Option.bind_some, hb] at hstart
      exact hstart
    have hle : a ≤ b := by
      rcases Nat.lt_or_eq_of_le (Nat.le_of_lt_succ hji) with hjk | rfl
      · exact UInt64.le_of_lt (h.bound_lt hjk hu hw ha hb)
      · rw [hw] at hu
        cases hu
        rw [ha] at hb
        cases hb
        exact UInt64.le_refl _
    rw [Bool.eq_false_iff, ne_eq, FeeTier.covers_iff]
    exact fun hcovers => Nat.not_lt.2 (Nat.le_trans (UInt64.le_iff_toNat_le.1 hle) hbelow)
      (hcovers a ha)
  · rintro ⟨t, ht, hcovers, hbefore⟩
    refine ⟨?_, t, ht, FeeTier.covers_iff.1 hcovers⟩
    cases i with
    | zero => exact Nat.zero_le day
    | succ k =>
        have hlength : k + 1 < s.tiers.length := (List.getElem?_eq_some_iff.1 ht).1
        have hw : s.tiers[k]? = some s.tiers[k] := List.getElem?_eq_getElem (by omega)
        obtain ⟨b, hb⟩ := Option.ne_none_iff_exists'.1 (h.untilDay_ne_none hw hlength)
        have hpassed := hbefore k (Nat.lt_succ_self k) _ hw
        rw [start, hw, Option.bind_some, hb]
        rw [FeeTier.covers, hb] at hpassed
        exact Nat.not_lt.1 (of_decide_eq_false hpassed)

/-- A day is spanned by one tier and no other, and this is the tier that is looked up. -/
theorem find_covers (h : s.Sound) (day : Nat) :
    ∃ i t, s.tiers.find? (fun t => t.covers day) = some t ∧ s.tiers[i]? = some t
      ∧ ∀ j, s.Spans day j ↔ j = i := by
  obtain ⟨last, hlast, hopen⟩ := h.last
  have hcovers : last.covers day = true := by rw [FeeTier.covers, hopen]
  have hfound : (s.tiers.find? fun t => t.covers day).isSome = true :=
    List.find?_isSome.2 ⟨last, List.mem_of_getLast? hlast, hcovers⟩
  obtain ⟨t, ht⟩ := Option.isSome_iff_exists.1 hfound
  obtain ⟨hday, i, hi, rfl, hbefore⟩ := List.find?_eq_some_iff_getElem.1 ht
  have hspans : s.Spans day i := by
    refine h.spans_iff.2 ⟨_, List.getElem?_eq_getElem hi, hday, fun j hji u hu => ?_⟩
    obtain ⟨hj, rfl⟩ := List.getElem?_eq_some_iff.1 hu
    exact Bool.not_eq_true' _ ▸ hbefore j hji
  refine ⟨i, _, ht, List.getElem?_eq_getElem hi, fun j => ⟨fun hj => ?_, fun hj => hj ▸ hspans⟩⟩
  obtain ⟨t, ht, htcovers, htbefore⟩ := h.spans_iff.1 hspans
  obtain ⟨u, hu, hucovers, hubefore⟩ := h.spans_iff.1 hj
  rcases Nat.lt_trichotomy j i with hlt | heq | hlt
  · exact absurd hucovers (Bool.eq_false_iff.1 (htbefore j hlt u hu))
  · exact heq
  · exact absurd htcovers (Bool.eq_false_iff.1 (hubefore i hlt t ht))

/-- The basis points of a day are those of its tier. -/
theorem basisPoints_spans (h : s.Sound) (day : Nat) :
    ∃ i t, (∀ j, s.Spans day j ↔ j = i) ∧ s.tiers[i]? = some t ∧ t.SoundShare
      ∧ s.basisPoints day = t.share.basisPoints := by
  obtain ⟨i, t, hfind, ht, hspans⟩ := h.find_covers day
  refine ⟨i, t, hspans, ht, h.shares t (List.mem_of_getElem? ht), ?_⟩
  rw [basisPoints, basisPoints?, hfind]
  rfl

/-- An engine with a sound schedule never stops over the share of a day. -/
theorem basisPoints?_eq (h : s.Sound) (day : Nat) :
    s.basisPoints? day = some (s.basisPoints day) := by
  obtain ⟨i, t, hfind, ht, -⟩ := h.find_covers day
  have hpoints : s.basisPoints? day = t.share.basisPoints? := by rw [basisPoints?, hfind]
  rw [basisPoints, hpoints, (h.shares t (List.mem_of_getElem? ht)).basisPoints?_eq,
    Option.getD_some]

/-- A share that is not sound may have none. -/
example : Decimal.basisPoints? { coefficient := 2 ^ 96 - 1, places := 0 } = none := by decide

end Sound

end FeeSchedule

end Backrun
