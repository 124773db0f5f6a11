import Backrun.Asset.Denom
import Backrun.Route.PoolType

/-!
# Hops

One swap through one pool in one direction.
-/

namespace Backrun

/-- A swap through a pool, from one denomination into another. -/
structure Hop where
  poolId : PoolId
  denomIn : Denom
  denomOut : Denom
  deriving DecidableEq, Repr

namespace Hop

/-- Whether the hop trades between `a` and `b`, in either direction. -/
def touches (h : Hop) (a b : Denom) : Bool :=
  (h.denomIn == a && h.denomOut == b) || (h.denomIn == b && h.denomOut == a)

/-- The same swap in the other direction. -/
def reverse (h : Hop) : Hop := ⟨h.poolId, h.denomOut, h.denomIn⟩

/-- The hop in words, the pool between the denominations. -/
def text (h : Hop) : String :=
  h.denomIn.text ++ "-[" ++ toString h.poolId ++ "]->" ++ h.denomOut.text

end Hop

instance : Codec Hop where
  toJson h := .object [("pool_id", toJson h.poolId), ("denom_in", toJson h.denomIn),
    ("denom_out", toJson h.denomOut)]
  ofJson? j :=
    match Fields.ofJson? ["pool_id", "denom_in", "denom_out"] j with
    | some ⟨_, [poolId, denomIn, denomOut]⟩ => do
        return ⟨← Fields.required poolId, ← Fields.required denomIn,
          ← Fields.required denomOut⟩
    | _ => none

end Backrun
