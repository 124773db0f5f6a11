import Backrun.Registry.BaseDenom
import Backrun.Store.Action

/-!
# Base denominations and the pool index

For each base denomination the index holds the most liquid pool with each of the
denominations it is traded against.  From it cycles can be built that nobody
registered.
-/

namespace Backrun

/-- The most liquid pool between a base denomination and another one. -/
structure PoolEntry where
  base : Denom
  counter : Denom
  poolId : PoolId
  deriving DecidableEq, Repr

instance : Codec PoolEntry where
  toJson e := .object [("base", toJson e.base), ("counter", toJson e.counter),
    ("pool_id", toJson e.poolId)]
  ofJson? j :=
    match Fields.ofJson? ["base", "counter", "pool_id"] j with
    | some ⟨_, [base, counter, poolId]⟩ => do
        return ⟨← Fields.required base, ← Fields.required counter, ← Fields.required poolId⟩
    | _ => none

namespace Registry

/-! ## Base denominations -/

/-- The base denominations in order of preference. -/
def baseDenoms : Query (List BaseDenom) := Query.loadAll Key.allBaseDenoms

/-- Writes a list from an index on. -/
def saveBases (index : Nat) : List BaseDenom → Action Unit
  | [] => pure ()
  | b :: rest => do
      Action.save (Key.baseDenom (UInt64.ofNat index)) b
      saveBases (index + 1) rest

/-- Replaces the whole list. -/
def setBaseDenoms (bases : List BaseDenom) : Action Unit := do
  (BaseDenom.validateList bases).mapError fun fault => Error.invalidConfig (.registry fault)
  Action.deleteUnder Key.allBaseDenoms
  saveBases 0 bases

/-! ## The pool index -/

/-- The pool between a base denomination and another one. -/
def pool (base counter : Denom) : Query PoolId := do
  let entry : PoolEntry ← Query.load (Key.pool base counter) (.poolFor base counter)
  return entry.poolId

/-- The whole index. -/
def allPools : Query (List PoolEntry) := Query.loadAll Key.allPools

/-- Sets the pool between a base denomination and another one. -/
def setPool (base counter : Denom) (poolId : PoolId) : Action Unit := do
  if base = counter then throw (.invalidConfig (.registry (.degeneratePool base counter)))
  Action.save (Key.pool base counter) (⟨base, counter, poolId⟩ : PoolEntry)

/-- Forgets the pools of a base denomination. -/
def clearPools (base : Denom) : Action Unit := Action.deleteUnder (Key.poolsOf base)

end Registry

end Backrun
