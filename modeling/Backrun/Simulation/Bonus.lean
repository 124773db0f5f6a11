import Backrun.Simulation.Bank

/-!
# Simulated bonus pools

A bonus pool trades any denominations and returns the input and a fixed bonus, so
that a cycle earns the sum of its bonuses whatever goes in.
-/

namespace Backrun.Simulation

/-- A pool with its number, its family and its bonus. -/
structure BonusPool where
  id : PoolId
  poolType : PoolType
  bonus : UInt64
  deriving DecidableEq, Repr

/-- The last pool of a list with the given number. -/
def findBonus (pools : List BonusPool) (id : PoolId) : Inspection BonusPool :=
  match pools.reverse.find? fun p => p.id == id with
  | some p => return p
  | none => throw ("pool " ++ toString id ++ " does not exist")

/-- The input and the bonus. -/
def quoteBonus (pools : List BonusPool) (hop : Hop) (input : Amount) : Inspection Amount := do
  let pool ← findBonus pools hop.poolId
  return input + BitVec.ofNat 256 pool.bonus.toNat

/-- Pools that return the input and a bonus. -/
def bonusPools (pools : List BonusPool) : Market where
  poolType id := do
    let pool ← findBonus pools id
    return pool.poolType
  quote := quoteBonus pools
  swap sender hop input := do
    let output ← quoteBonus pools hop input
    debit sender ⟨hop.denomIn, input⟩
    credit sender ⟨hop.denomOut, output⟩
    return output

end Backrun.Simulation
