import Backrun.Amount
import Backrun.Asset.Denom

/-!
# Coins

An amount of one denomination.
-/

namespace Backrun

/-- An amount of one denomination. -/
structure Coin where
  denom : Denom
  amount : Amount
  deriving DecidableEq, Repr

namespace Coin

/-- The decimal amount followed by the denomination. -/
def text (c : Coin) : String := c.amount.text ++ c.denom.text

end Coin

instance : Codec Coin where
  toJson c := .object [("denom", toJson c.denom), ("amount", toJson c.amount)]
  ofJson? j :=
    match Fields.ofJson? ["denom", "amount"] j with
    | some ⟨_, [denom, amount]⟩ => do
        return ⟨← Fields.required denom, ← Fields.required amount⟩
    | _ => none

end Backrun
