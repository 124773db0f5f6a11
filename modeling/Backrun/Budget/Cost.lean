import Backrun.Budget.Basic
import Backrun.Market.Basic

/-!
# The cost of a cycle

A cycle costs its overhead and the weight of the pool of every hop.
-/

namespace Backrun.Budget

/-- The weight of the pool that a hop crosses. -/
def hopCost (config : EngineConfig) (market : Market) (hop : Hop) : Query UInt64 := do
  let poolType ← Query.inspect (market.poolType hop.poolId) fun fault =>
    .notFound (.pool hop.poolId fault)
  match config.weights.weight? poolType with
  | some points => return points
  | none => throw (.notFound (.weight poolType))

/-- What hops cost on top of a cost. -/
def hopsCost (config : EngineConfig) (market : Market) (cost : UInt64) : List Hop → Query UInt64
  | [] => return cost
  | hop :: rest => do
      let points ← hopCost config market hop
      hopsCost config market (Points.plus cost points) rest

/-- What a cycle costs. -/
def cost (config : EngineConfig) (market : Market) (r : Route) : Query UInt64 :=
  hopsCost config market config.search.overhead r.hops

end Backrun.Budget
