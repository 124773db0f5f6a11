import Backrun.Asset.Coin
import Backrun.Config.FeeSchedule

/-!
# Splitting a profit

The developer's share rounds down and the treasury keeps the rest, so that the two
parts always add up to the profit.
-/

namespace Backrun

/-- A profit in two parts. -/
structure ProfitSplit where
  developer : Coin
  treasury : Coin
  deriving DecidableEq, Repr

instance : Codec ProfitSplit where
  toJson p := .object [("developer", toJson p.developer), ("treasury", toJson p.treasury)]
  ofJson? j :=
    match Fields.ofJson? ["developer", "treasury"] j with
    | some ⟨_, [developer, treasury]⟩ => do
        return ⟨← Fields.required developer, ← Fields.required treasury⟩
    | _ => none

namespace Amount

/-- A share in basis points, at most the whole. Where the product leaves the word,
whole ten-thousandths are counted first. -/
def share (a : Amount) (basisPoints : Nat) : Amount :=
  let whole := BitVec.ofNat 256 wholeInBasisPoints
  let points := BitVec.ofNat 256 (min basisPoints wholeInBasisPoints)
  match a.checkedMul points with
  | some scaled => scaled / whole
  | none => a / whole * points

end Amount

namespace Coin

/-- Splits a profit, the developer's share in basis points. -/
def split (profit : Coin) (basisPoints : Nat) : ProfitSplit :=
  let developer := profit.amount.share basisPoints
  ⟨⟨profit.denom, developer⟩, ⟨profit.denom, profit.amount - developer⟩⟩

end Coin

end Backrun
