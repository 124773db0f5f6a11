import Backrun.Cycle.Sizing

/-!
# Candidates

A candidate is a cycle with its size, its quotes and its cost.  The best one earns
most; among equals the order of registration decides, then the order of the base
denominations.  A cycle that earns nothing is never chosen.
-/

namespace Backrun

/-- Where a cycle comes from. -/
inductive CycleSource where
  | registered
  | poolIndex
  deriving DecidableEq, Repr

/-- A cycle to be priced. -/
structure Proposal where
  route : Route
  source : CycleSource
  /-- The position among the registered routes; cycles of the pool index share the one
  after the last. -/
  routeIndex : Nat
  /-- The position of the base denomination. -/
  basePosition : Nat
  deriving DecidableEq, Repr

/-- A cycle that was priced. -/
structure Candidate extends Proposal where
  quote : Quote
  /-- The points that the cycle costs. -/
  cost : UInt64
  deriving DecidableEq, Repr

namespace Candidate

/-- Whether the first candidate has to be preferred to the second. -/
def outranks (c d : Candidate) : Bool :=
  d.quote.profit < c.quote.profit
    || (d.quote.profit == c.quote.profit
      && (c.routeIndex < d.routeIndex
        || (c.routeIndex == d.routeIndex && c.basePosition < d.basePosition)))

/-- The first candidate that no other one outranks. -/
def best? : List Candidate → Option Candidate
  | [] => none
  | c :: rest =>
      match best? rest with
      | some d => if d.outranks c then some d else some c
      | none => some c

/-- The best candidate that earns anything. -/
def select (cs : List Candidate) : Option Candidate :=
  best? (cs.filter fun c => c.quote.profit != 0)

end Candidate

end Backrun
