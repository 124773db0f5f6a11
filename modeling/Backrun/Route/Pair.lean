import Backrun.Route.Basic

/-!
# Pairs of denominations

Routes are registered for an unordered pair, whose canonical form names the
smaller denomination first.
-/

namespace Backrun

/-- Two denominations. -/
structure DenomPair where
  tokenA : Denom
  tokenB : Denom
  deriving DecidableEq, Repr

namespace DenomPair

/-- The pair of `a` and `b` with the smaller one first. -/
def canonical (a b : Denom) : DenomPair := if b.bytes < a.bytes then ⟨b, a⟩ else ⟨a, b⟩

/-- Both names with a slash between them. -/
def text (p : DenomPair) : String := p.tokenA.text ++ "/" ++ p.tokenB.text

end DenomPair

instance : Codec DenomPair where
  toJson p := .object [("token_a", toJson p.tokenA), ("token_b", toJson p.tokenB)]
  ofJson? j :=
    match Fields.ofJson? ["token_a", "token_b"] j with
    | some ⟨_, [a, b]⟩ => do return ⟨← Fields.required a, ← Fields.required b⟩
    | _ => none

/-- The routes registered for a pair. -/
structure PairRoutes where
  pair : DenomPair
  routes : List Route
  deriving DecidableEq, Repr

instance : Codec PairRoutes where
  toJson p := .object [("pair", toJson p.pair), ("routes", toJson p.routes)]
  ofJson? j :=
    match Fields.ofJson? ["pair", "routes"] j with
    | some ⟨_, [pair, routes]⟩ => do
        return ⟨← Fields.required pair, ← Fields.required routes⟩
    | _ => none

end Backrun
