import Backrun.Budget.Basic
import Backrun.Instant.Text
import Backrun.Registry.Pools
import Backrun.Registry.Routes

/-!
# The genesis document

Everything that the engine stores, as one document.  A valid document can be
stored as it stands: no two of its entries share a key, and each entry would be
accepted on its own.
-/

namespace Backrun

/-- Everything that the engine stores. -/
structure Genesis where
  config : EngineConfig
  routes : List PairRoutes
  bases : List BaseDenom
  pools : List PoolEntry
  fees : List Coin
  counter : PointCounter
  time : Instant
  trades : UInt64
  profits : List Coin
  deriving DecidableEq, Repr

namespace Genesis

/-- The document of an engine that nobody configured and that never traded. -/
def standard : Genesis where
  config := .standard
  routes := []
  bases := []
  pools := []
  fees := []
  counter := .zero
  time := .epoch
  trades := 0
  profits := []

/-! ## Validation -/

/-- Accepts pairs in canonical order, none of them `seen` before, each with routes that
may be registered for it. -/
def validatePairs (mostHops : UInt64) (seen : List DenomPair) :
    List PairRoutes → Except Invalid Unit
  | [] => .ok ()
  | entry :: rest => do
      let pair := entry.pair
      if DenomPair.canonical pair.tokenA pair.tokenB ≠ pair then
        throw (.genesis (.notCanonical pair))
      if pair ∈ seen then throw (.genesis (.pairTwice pair))
      if entry.routes.isEmpty then throw (.genesis (.noRoutes pair))
      if pair.tokenA = pair.tokenB then
        throw (.registry (.degeneratePair pair.tokenA pair.tokenB))
      PairRoutes.validateRoutes mostHops pair entry.routes
      validatePairs mostHops (pair :: seen) rest

/-- Accepts entries between two denominations, no two of which were `seen` before. -/
def validatePools (seen : List (Denom × Denom)) : List PoolEntry → Except Invalid Unit
  | [] => .ok ()
  | e :: rest =>
      if e.base = e.counter ∨ (e.base, e.counter) ∈ seen then
        .error (.genesis (.poolEntry e.base e.counter))
      else validatePools ((e.base, e.counter) :: seen) rest

/-- The first denomination of a list that was `seen` before. -/
def repeated? (seen : List Denom) : List Coin → Option Denom
  | [] => none
  | c :: rest => if c.denom ∈ seen then some c.denom else repeated? (c.denom :: seen) rest

/-- What the document books as earned in a denomination. -/
def booked (g : Genesis) (d : Denom) : Amount :=
  match g.profits.find? fun c => c.denom == d with
  | some c => c.amount
  | none => 0

/-- Accepts fees and profits that name each denomination once, and fees that were earned. -/
def validateLedger (g : Genesis) : Except Invalid Unit := do
  if let some d := repeated? [] g.fees then throw (.genesis (.feesTwice d))
  if let some d := repeated? [] g.profits then throw (.genesis (.profitsTwice d))
  if let some c := g.fees.find? fun c => g.booked c.denom < c.amount then
    throw (.genesis (.feesAboveProfit c (g.booked c.denom)))

/-- Accepts a document that can be stored as it stands. -/
def validate (g : Genesis) : Except Invalid Unit := do
  g.config.validate.mapError .config
  if ¬ g.bases.isEmpty then (BaseDenom.validateList g.bases).mapError .registry
  validatePairs g.config.search.mostHops [] g.routes
  validatePools [] g.pools
  g.validateLedger
  if g.config.pointsPerBlock < g.counter.consumed then
    throw (.genesis (.consumedAboveCeiling g.counter.consumed g.config.pointsPerBlock))

end Genesis

instance : Codec Genesis where
  toJson g := .object [("config", toJson g.config), ("token_pair_arb_routes", toJson g.routes),
    ("base_denoms", toJson g.bases), ("denom_pair_pools", toJson g.pools),
    ("developer_fees", toJson g.fees), ("point_counter", toJson g.counter),
    ("module_genesis_time", toJson g.time), ("number_of_trades", toJson g.trades),
    ("profits", toJson g.profits)]
  ofJson? j :=
    match Fields.ofJson? ["config", "token_pair_arb_routes", "base_denoms", "denom_pair_pools",
        "developer_fees", "point_counter", "module_genesis_time", "number_of_trades",
        "profits"] j with
    | some ⟨_, [config, routes, bases, pools, fees, counter, time, trades, profits]⟩ => do
        return ⟨← Fields.required config, ← Fields.withDefault [] routes,
          ← Fields.withDefault [] bases, ← Fields.withDefault [] pools,
          ← Fields.withDefault [] fees, ← Fields.withDefault .zero counter,
          ← Fields.required time, ← Fields.withDefault 0 trades,
          ← Fields.withDefault [] profits⟩
    | _ => none

end Backrun
