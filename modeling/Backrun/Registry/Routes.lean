import Backrun.Store.Action

/-!
# Registered routes

The cycles to try after a trade, listed under the pair of denominations that was
traded.  Every route of a pair trades that pair somewhere.
-/

namespace Backrun

namespace PairRoutes

/-- Accepts a cycle of at most `mostHops` hops that trades the pair. -/
def validateRoute (mostHops : UInt64) (pair : DenomPair) (r : Route) : Except Invalid Unit := do
  (r.validate mostHops).mapError .route
  if r.touches pair.tokenA pair.tokenB then .ok ()
  else .error (.registry (.offPair r pair))

/-- Accepts a list of such cycles. -/
def validateRoutes (mostHops : UInt64) (pair : DenomPair) (routes : List Route) :
    Except Invalid Unit :=
  routes.forM fun r => validateRoute mostHops pair r

end PairRoutes

namespace Registry

/-- The routes registered for `a` and `b`, in whichever order these are named. -/
def routes (a b : Denom) : Query PairRoutes :=
  let pair := DenomPair.canonical a b
  Query.load (Key.pairRoutes pair) (.routes pair)

/-- All registered routes. -/
def allRoutes : Query (List PairRoutes) := Query.loadAll Key.allPairRoutes

/-- Registers routes for `a` and `b` in place of those registered before. Without
routes the pair is forgotten. -/
def setRoutes (a b : Denom) (routes : List Route) (mostHops : UInt64) : Action Unit := do
  if a = b then throw (.invalidConfig (.registry (.degeneratePair a b)))
  let pair := DenomPair.canonical a b
  (PairRoutes.validateRoutes mostHops pair routes).mapError Error.invalidConfig
  if routes.isEmpty then Action.delete (Key.pairRoutes pair)
  else Action.save (Key.pairRoutes pair) (⟨pair, routes⟩ : PairRoutes)

/-- Forgets all registered routes. -/
def clearRoutes : Action Unit := Action.deleteUnder Key.allPairRoutes

end Registry

end Backrun
