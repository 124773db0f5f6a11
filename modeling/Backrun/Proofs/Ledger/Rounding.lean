import Backrun.Proofs.Ledger.Shares

/-!
# The rounding of a split

Two ways of taking a share are compared as numbers: to multiply first and round once, which is the
scheduled share, and to divide first, which is what a split does where the product is no amount.
The second way never takes more, and what it takes less is below the basis points themselves.

* `splitInWords` — the split with a check at every operation that could leave its word.
* `split_tight` — no check refuses, no unit of the profit is lost, and the developer's part is
  the scheduled share or just below it.
-/

namespace Backrun

/-! ## Two ways of rounding -/

/-- The share of an amount in basis points, rounded down once, behind the product. -/
def scheduledShare (amount basisPoints : Nat) : Nat := amount * basisPoints / wholeInBasisPoints

/-- The share of the whole ten-thousandths of an amount. -/
def coarseShare (amount basisPoints : Nat) : Nat := amount / wholeInBasisPoints * basisPoints

theorem coarseShare_le (amount basisPoints : Nat) :
    coarseShare amount basisPoints ≤ scheduledShare amount basisPoints := by
  rw [coarseShare, scheduledShare, Nat.mul_comm, Nat.mul_comm amount]
  exact Nat.mul_div_le_mul_div_assoc _ _ _

/-- The ten-thousandth that is cut off by the division holds less than one unit for each basis
point. -/
theorem scheduledShare_le (amount basisPoints : Nat) :
    scheduledShare amount basisPoints ≤ coarseShare amount basisPoints + (basisPoints - 1) := by
  have hparts : amount * basisPoints
      = amount % wholeInBasisPoints * basisPoints
        + wholeInBasisPoints * coarseShare amount basisPoints := by
    rw [coarseShare, ← Nat.mul_assoc, ← Nat.add_mul, Nat.mod_add_div]
  have hcut : amount % wholeInBasisPoints * basisPoints / wholeInBasisPoints ≤ basisPoints - 1 := by
    rcases Nat.eq_zero_or_pos basisPoints with rfl | hpos
    · rw [Nat.mul_zero, Nat.zero_div]
    · refine Nat.le_sub_one_of_lt (Nat.div_lt_of_lt_mul ?_)
      exact Nat.mul_lt_mul_of_pos_right (Nat.mod_lt _ (by decide)) hpos
  rw [scheduledShare, hparts, Nat.add_mul_div_left _ _ (by decide), Nat.add_comm]
  exact Nat.add_le_add_left hcut _

/-- The whole of the greatest amount, taken the coarse way, falls short by what is cut off. -/
example : scheduledShare Amount.greatest.toNat 10000 = Amount.greatest.toNat
    ∧ coarseShare Amount.greatest.toNat 10000 + 9935 = Amount.greatest.toNat := by decide

/-! ## The split in words -/

namespace Amount

/-- `share` with a check of the product behind the division.  There is no answer if a word is
left. -/
def shareInWords (a : Amount) (basisPoints : Nat) : Option Amount :=
  let whole := BitVec.ofNat 256 wholeInBasisPoints
  let points := BitVec.ofNat 256 (min basisPoints wholeInBasisPoints)
  match a.checkedMul points with
  | some scaled => some (scaled / whole)
  | none => (a / whole).checkedMul points

/-- Basis points above the whole count as the whole. -/
theorem share_min (a : Amount) (basisPoints : Nat) :
    a.share (min basisPoints wholeInBasisPoints) = a.share basisPoints := by
  rw [share, share, Nat.min_assoc, Nat.min_self]

/-- Behind the division there is room for the product, whatever the amount. -/
theorem shareInWords_eq (a : Amount) (basisPoints : Nat) :
    a.shareInWords basisPoints = some (a.share basisPoints) := by
  have hwhole : (BitVec.ofNat 256 wholeInBasisPoints).toNat = wholeInBasisPoints := rfl
  have hpoints : (BitVec.ofNat 256 (min basisPoints wholeInBasisPoints)).toNat
      ≤ wholeInBasisPoints := by
    rw [BitVec.toNat_ofNat]
    exact (Nat.mod_le _ _).trans (Nat.min_le_right _ _)
  rw [shareInWords, share]
  generalize BitVec.ofNat 256 (min basisPoints wholeInBasisPoints) = points at hpoints
  cases a.checkedMul points with
  | some scaled => rfl
  | none =>
      have hroom : (a / BitVec.ofNat 256 wholeInBasisPoints).toNat * points.toNat < bound := by
        rw [BitVec.toNat_udiv, hwhole]
        exact Nat.lt_of_le_of_lt ((Nat.mul_le_mul_left _ hpoints).trans
          (Nat.div_mul_le_self _ _)) a.isLt
      exact if_pos hroom

end Amount

namespace Coin

/-- `split` with a check at every operation that could leave its word.  There is no answer if
one is left. -/
def splitInWords (profit : Coin) (basisPoints : Nat) : Option ProfitSplit := do
  let developer ← profit.amount.shareInWords basisPoints
  let treasury ← profit.amount.checkedSub developer
  return ⟨⟨profit.denom, developer⟩, ⟨profit.denom, treasury⟩⟩

theorem splitInWords_eq (profit : Coin) (basisPoints : Nat) :
    profit.splitInWords basisPoints = some (profit.split basisPoints) := by
  have hrest : profit.amount.checkedSub (profit.amount.share basisPoints)
      = some (profit.amount - profit.amount.share basisPoints) :=
    if_pos (Amount.share_le profit.amount basisPoints)
  rw [splitInWords, Amount.shareInWords_eq, Option.bind_eq_bind, Option.bind_some, hrest]
  rfl

/-- **A split is exact in total and tight in its share.**  Whatever the profit and the basis
points, no operation of the split leaves its word, and both parts together are the profit.  The
developer's part is the scheduled share wherever the product is an amount; elsewhere it is the
coarse one, which is never above the scheduled share and below it by less than the basis points.
-/
theorem split_tight (profit : Coin) (basisPoints : Nat) :
    let points := min basisPoints wholeInBasisPoints
    let split := profit.split basisPoints
    let scheduled := scheduledShare profit.amount.toNat points
    let coarse := coarseShare profit.amount.toNat points
    profit.splitInWords basisPoints = some split
      ∧ split.Splits profit
      ∧ (profit.amount.toNat * points < Amount.bound →
        split.developer.amount.toNat = scheduled)
      ∧ (Amount.bound ≤ profit.amount.toNat * points →
        split.developer.amount.toNat = coarse
          ∧ scheduled - (points - 1) ≤ split.developer.amount.toNat)
      ∧ split.developer.amount.toNat ≤ scheduled
      ∧ coarse ≤ scheduled ∧ scheduled ≤ coarse + (points - 1) := by
  intro points split scheduled coarse
  have hshare : split.developer.amount.toNat
      = if profit.amount.toNat * points < Amount.bound then scheduled else coarse := by
    have hpoints : points ≤ wholeInBasisPoints := Nat.min_le_right _ _
    have htoNat := Amount.toNat_share profit.amount hpoints
    rw [Amount.share_min] at htoNat
    exact htoNat
  have hcoarse : coarse ≤ scheduled := coarseShare_le _ _
  have hscheduled : scheduled ≤ coarse + (points - 1) := scheduledShare_le _ _
  refine ⟨profit.splitInWords_eq basisPoints, profit.split_splits basisPoints, fun hfits => ?_,
    fun hleaves => ?_, ?_, hcoarse, hscheduled⟩
  · rw [hshare, if_pos hfits]
  · rw [hshare, if_neg (Nat.not_lt.2 hleaves)]
    exact ⟨rfl, Nat.sub_le_of_le_add hscheduled⟩
  · rw [hshare]
    split
    · exact Nat.le_refl _
    · exact hcoarse

end Coin

end Backrun
