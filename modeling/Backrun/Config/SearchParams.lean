import Backrun.Config.Weights

/-!
# Search parameters

How far the search for a profitable cycle goes.
-/

namespace Backrun

/-- The longest cycle that can be configured. -/
def greatestHops : UInt64 := 6

/-- What is wrong with search parameters. -/
inductive SearchFault where
  | hops
  | overhead
  | iterations
  | multiplier
  deriving DecidableEq, Repr

namespace SearchFault

/-- The fault in words. -/
def message : SearchFault → String
  | .hops => "max_hops must be between 2 and " ++ toString greatestHops
  | .overhead => "cycle_overhead_points must be at most " ++ toString greatestPointsPerTx
  | .iterations => "max_search_iterations must be between 1 and 64"
  | .multiplier => "max_input_multiplier must be positive"

end SearchFault

/-- How far the search goes. -/
structure SearchParams where
  /-- Points that each cycle costs on top of its hops. -/
  overhead : UInt64
  /-- The longest admissible cycle. -/
  mostHops : UInt64
  /-- Steps of the binary search for the best input. -/
  iterations : UInt32
  /-- The largest input as a multiple of the step size. -/
  mostSteps : UInt64
  /-- Whether cycles are built from the pool index too. -/
  liquidityCycles : Bool
  deriving DecidableEq, Repr

namespace SearchParams

/-- The parameters of an engine that nobody configured. -/
def standard : SearchParams := ⟨1, 3, 16, 10000, false⟩

/-- Accepts parameters within their bounds. -/
def validate (p : SearchParams) : Except SearchFault Unit :=
  if p.mostHops < 2 ∨ greatestHops < p.mostHops then .error .hops
  else if greatestPointsPerTx < p.overhead then .error .overhead
  else if p.iterations < 1 ∨ 64 < p.iterations then .error .iterations
  else if p.mostSteps = 0 then .error .multiplier
  else .ok ()

end SearchParams

instance : Codec SearchParams where
  toJson p := .object [("cycle_overhead_points", toJson p.overhead),
    ("max_hops", toJson p.mostHops), ("max_search_iterations", toJson p.iterations),
    ("max_input_multiplier", toJson p.mostSteps), ("liquidity_cycles", toJson p.liquidityCycles)]
  ofJson? j :=
    match Fields.ofJson? ["cycle_overhead_points", "max_hops", "max_search_iterations",
        "max_input_multiplier", "liquidity_cycles"] j with
    | some ⟨_, [overhead, mostHops, iterations, mostSteps, liquidityCycles]⟩ => do
        return ⟨← Fields.required overhead, ← Fields.required mostHops,
          ← Fields.required iterations, ← Fields.required mostSteps,
          ← Fields.withDefault false liquidityCycles⟩
    | _ => none

end Backrun
