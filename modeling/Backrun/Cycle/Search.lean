import Backrun.Cycle.Candidate
import Backrun.Cycle.Liquidity
import Backrun.Registry.Routes

/-!
# The search

After a trade, the registered routes of the traded pair and the cycles of the pool
index are priced, and the best one that the budget allows is chosen.  A cycle that
cannot be priced is passed over.  The search writes nothing.
-/

namespace Backrun

/-- What a search comes to. -/
inductive SearchOutcome where
  | disabled
  /-- The budget is spent, or what is left of it fits no cycle. -/
  | budgetExhausted
  | noRoutes
  | notProfitable
  | found (best : Candidate)
  deriving DecidableEq, Repr

/-- What the pricing of one cycle comes to. -/
inductive Pricing where
  | passedOver
  | overBudget
  | priced (c : Candidate)
  deriving DecidableEq, Repr

namespace Pricing

/-- The candidate of a cycle that was priced. -/
def candidate? : Pricing → Option Candidate
  | .priced c => some c
  | .passedOver | .overBudget => none

/-- Whether a cycle costs more than is left. -/
def isOverBudget : Pricing → Bool
  | .overBudget => true
  | .passedOver | .priced _ => false

end Pricing

namespace Search

/-- The registered routes that start in a base denomination, counted from `index` on. -/
def registeredFrom (bases : List BaseDenom) (index : Nat) : List Route → List (Proposal × BaseDenom)
  | [] => []
  | r :: rest =>
      let others := registeredFrom bases (index + 1) rest
      match r.base?.bind (BaseDenom.position? bases) with
      | some position =>
          match bases[position]? with
          | some b => (⟨r, .registered, index, position⟩, b) :: others
          | none => others
      | none => others

/-- The cycles of the pool index, all of them behind `index` registered routes. -/
def indexed (bases : List BaseDenom) (index : Nat) (cycles : List (Nat × Route)) :
    List (Proposal × BaseDenom) :=
  cycles.filterMap fun c =>
    match bases[c.1]? with
    | some b => some (⟨c.2, .poolIndex, index, c.1⟩, b)
    | none => none

/-- The cycles to try after a trade, with the base denominations that they start in. -/
def proposals (config : EngineConfig) (trade : Hop) : Query (List (Proposal × BaseDenom)) := do
  let entry ← Query.unlessMissing (Registry.routes trade.denomIn trade.denomOut)
  let registered := (entry.map PairRoutes.routes).getD []
  let bases ← Registry.baseDenoms
  let own := registeredFrom bases 0 registered
  if config.search.liquidityCycles then
    let cycles ← Registry.cyclesAround trade bases config.search.mostHops
    return own ++ indexed bases registered.length cycles
  else
    return own

/-- Prices a cycle that may cost as much as is available. -/
def price (config : EngineConfig) (market : Market) (available : UInt64) (p : Proposal)
    (b : BaseDenom) : Query Pricing := do
  match ← Query.unlessRecoverable (Budget.cost config market p.route) with
  | none => return .passedOver
  | some cost =>
      if available < cost then return .overBudget
      match ← Query.unlessRecoverable (p.route.size market b.stepSize config.search) with
      | none => return .passedOver
      | some quote => return .priced { p with quote, cost }

/-- Prices cycles in order. -/
def priceAll (config : EngineConfig) (market : Market) (available : UInt64) :
    List (Proposal × BaseDenom) → Query (List Pricing)
  | [] => return []
  | (p, b) :: rest => do
      let first ← price config market available p b
      let others ← priceAll config market available rest
      return first :: others

/-- What the prices of all cycles come to. -/
def conclude (pricings : List Pricing) : SearchOutcome :=
  let candidates := pricings.filterMap Pricing.candidate?
  if candidates.isEmpty && pricings.any Pricing.isOverBudget then .budgetExhausted
  else
    match Candidate.select candidates with
    | some best => .found best
    | none => .notProfitable

/-- Looks for the best cycle after a trade. -/
def run (config : EngineConfig) (market : Market) (trade : Hop) : Query SearchOutcome := do
  if ¬ config.enabled then return .disabled
  let budget ← Budget.state
  if budget.remaining = 0 then return .budgetExhausted
  let cycles ← proposals config trade
  if cycles.isEmpty then return .noRoutes
  let pricings ← priceAll config market budget.available cycles
  return conclude pricings

end Search

end Backrun
