import Backrun.Simulation.Bank

/-!
# Simulated constant-product pools

A pool holds reserves of two denominations.  A swap takes a fee of three tenths of a
percent off the input and then pays out as much as keeps the product of the
reserves from falling.  Pools are records of the store.
-/

namespace Backrun.Simulation

/-- A pool of two denominations. -/
structure Pool where
  poolType : PoolType
  denomA : Denom
  reserveA : Amount
  denomB : Denom
  reserveB : Amount
  deriving DecidableEq, Repr

instance : Codec Pool where
  toJson p := .object [("pool_type", toJson p.poolType), ("denom_a", toJson p.denomA),
    ("reserve_a", toJson p.reserveA), ("denom_b", toJson p.denomB),
    ("reserve_b", toJson p.reserveB)]
  ofJson? j :=
    match Fields.ofJson? ["pool_type", "denom_a", "reserve_a", "denom_b", "reserve_b"] j with
    | some ⟨_, [poolType, denomA, reserveA, denomB, reserveB]⟩ => do
        return ⟨← Fields.required poolType, ← Fields.required denomA, ← Fields.required reserveA,
          ← Fields.required denomB, ← Fields.required reserveB⟩
    | _ => none

/-- The leading bytes of all pools. -/
def allPools : Bytes := [0xF0]

/-- Where a pool is kept. -/
def poolKey (id : PoolId) : Bytes := allPools ++ Bytes.bigEndian id

/-- The pool with the given number. -/
def loadPool (id : PoolId) : Inspection Pool := fun v =>
  match v (poolKey id) with
  | none => .error ("pool " ++ toString id ++ " does not exist")
  | some bytes =>
      match Codec.decode? bytes with
      | some p => .ok p
      | none => .error Error.codec.message

namespace Pool

/-- The reserves that a hop pays into and draws from. -/
def reserves (p : Pool) (hop : Hop) : Inspection (Amount × Amount) :=
  if hop.denomIn = p.denomA ∧ hop.denomOut = p.denomB then return (p.reserveA, p.reserveB)
  else if hop.denomIn = p.denomB ∧ hop.denomOut = p.denomA then return (p.reserveB, p.reserveA)
  else
    throw ("pool " ++ toString hop.poolId ++ " does not trade " ++ hop.denomIn.text ++ " -> "
      ++ hop.denomOut.text)

/-- The pool after a swap. -/
def after (p : Pool) (hop : Hop) (input output : Amount) : Pool :=
  if hop.denomIn = p.denomA then
    { p with reserveA := p.reserveA + input, reserveB := p.reserveB - output }
  else
    { p with reserveB := p.reserveB + input, reserveA := p.reserveA - output }

end Pool

/-- What reserves pay out for an input.  The products and the sum work modulo the word.  A divisor
that comes out as zero pays nothing, where a simulated pool stops. -/
def payout (input reserveIn reserveOut : Amount) : Amount :=
  if input = 0 ∨ reserveIn = 0 ∨ reserveOut = 0 then 0
  else
    let charged := input * 997
    charged * reserveOut / (reserveIn * 1000 + charged)

/-- What a pool pays out for an input. -/
def quotePool (hop : Hop) (input : Amount) : Inspection Amount := do
  let pool ← loadPool hop.poolId
  let (reserveIn, reserveOut) ← pool.reserves hop
  return payout input reserveIn reserveOut

/-- Swaps through a pool, unless it is frozen. -/
def swapPool (frozen : List PoolId) (sender : Account) (hop : Hop) (input : Amount) :
    Effect Amount := do
  if hop.poolId ∈ frozen then
    Effect.refuse ("pool " ++ toString hop.poolId ++ " is frozen")
  else
    let pool ← loadPool hop.poolId
    let (reserveIn, reserveOut) ← pool.reserves hop
    let output := payout input reserveIn reserveOut
    if output = 0 then
      Effect.refuse ("swap through pool " ++ toString hop.poolId ++ " yields nothing")
    else
      debit sender ⟨hop.denomIn, input⟩
      credit sender ⟨hop.denomOut, output⟩
      Effect.save (poolKey hop.poolId) (pool.after hop input output)
      return output

/-- Creates a pool, or replaces it. -/
def createPool (id : PoolId) (p : Pool) : Effect Unit := Effect.save (poolKey id) p

/-- Constant-product pools; those that are frozen quote but do not swap. -/
def constantProduct (frozen : List PoolId) : Market where
  poolType id := do
    let pool ← loadPool id
    return pool.poolType
  quote := quotePool
  swap := swapPool frozen

end Backrun.Simulation
