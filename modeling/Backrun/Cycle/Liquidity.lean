import Backrun.Registry.Pools

/-!
# Cycles from the pool index

Around the pool that was traded, one cycle for each base denomination: into what
the trade paid out, back through the traded pool against the direction of the
trade, and home again.  The other hops cross the most liquid pools of the base.
-/

namespace Backrun.Registry

/-- The most liquid pool between two denominations, unless none is known or it is the one
that was traded. -/
def otherPool (traded : PoolId) (base counter : Denom) : Query (Option PoolId) := do
  match ← Query.unlessMissing (pool base counter) with
  | some id => return if id = traded then none else some id
  | none => return none

/-- The hops of the cycle from a base denomination around a trade, where the index knows
the pools for it. -/
def hopsAround (trade : Hop) (base : Denom) : Query (Option (List Hop)) := do
  let back := trade.reverse
  if base = trade.denomIn then
    let entry ← otherPool trade.poolId base trade.denomOut
    return entry.map fun id => [⟨id, base, trade.denomOut⟩, back]
  else if base = trade.denomOut then
    let exit ← otherPool trade.poolId base trade.denomIn
    return exit.map fun id => [back, ⟨id, trade.denomIn, base⟩]
  else
    let entry ← otherPool trade.poolId base trade.denomOut
    let exit ← otherPool trade.poolId base trade.denomIn
    match entry, exit with
    | some first, some last =>
        return some [⟨first, base, trade.denomOut⟩, back, ⟨last, trade.denomIn, base⟩]
    | _, _ => return none

/-- The cycle from a base denomination around a trade, if it is one of at most
`mostHops` hops. -/
def cycleAround (trade : Hop) (mostHops : UInt64) (base : Denom) : Query (Option Route) := do
  let hops ← hopsAround trade base
  return (hops.map Route.mk).filter fun r => (r.validate mostHops).isOk

/-- The cycles around a trade with the positions of their base denominations, counted
from `position` on. -/
def cyclesFrom (trade : Hop) (mostHops : UInt64) (position : Nat) :
    List BaseDenom → Query (List (Nat × Route))
  | [] => return []
  | b :: rest => do
      let cycle ← cycleAround trade mostHops b.denom
      let others ← cyclesFrom trade mostHops (position + 1) rest
      match cycle with
      | some r => return (position, r) :: others
      | none => return others

/-- The cycles around a trade with the positions of their base denominations. -/
def cyclesAround (trade : Hop) (bases : List BaseDenom) (mostHops : UInt64) :
    Query (List (Nat × Route)) :=
  cyclesFrom trade mostHops 0 bases

end Backrun.Registry
