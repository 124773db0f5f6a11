import Backrun.Route.PoolType

/-!
# Pool weights

The points that one hop costs, by the family of its pool.  A family without a
weight cannot be traded.
-/

namespace Backrun

/-- The most points that one transaction may ever spend. -/
def greatestPointsPerTx : UInt64 := 50

/-- The most points that one block may ever spend. -/
def greatestPointsPerBlock : UInt64 := 200

/-- The largest weight; one above it would fit no transaction. -/
def greatestWeight : UInt64 := greatestPointsPerTx

/-- The points of one hop for each family of pools that may be traded. -/
structure PoolWeights where
  balancer : Option UInt64
  stable : Option UInt64
  concentrated : Option UInt64
  deriving DecidableEq, Repr

namespace PoolWeights

/-- No family may be traded. -/
def empty : PoolWeights := ⟨none, none, none⟩

/-- The weights of an engine that nobody configured. -/
def standard : PoolWeights := ⟨some 2, some 5, some 2⟩

/-- The weight of a family. -/
def weight? (w : PoolWeights) : PoolType → Option UInt64
  | .balancer => w.balancer
  | .stable => w.stable
  | .concentrated => w.concentrated

/-- Sets the weight of a family. -/
def insert (w : PoolWeights) (t : PoolType) (points : UInt64) : PoolWeights :=
  match t with
  | .balancer => { w with balancer := some points }
  | .stable => { w with stable := some points }
  | .concentrated => { w with concentrated := some points }

/-- The weights of `update`, and those of `w` where it has none. -/
def merge (w update : PoolWeights) : PoolWeights :=
  ⟨update.balancer <|> w.balancer, update.stable <|> w.stable,
    update.concentrated <|> w.concentrated⟩

/-- The families with a weight, with their weights. -/
def toList (w : PoolWeights) : List (PoolType × UInt64) :=
  [PoolType.balancer, .stable, .concentrated].filterMap fun t => (w.weight? t).map fun n => (t, n)

/-- The first family whose weight is zero or too large. -/
def fault? (w : PoolWeights) : Option PoolType :=
  (w.toList.find? fun e => e.2 == 0 || greatestWeight < e.2).map Prod.fst

/-- Adds the members of an object in order, so that a repeated family keeps its last weight. -/
def ofMembers? (w : PoolWeights) : List (String × Json) → Option PoolWeights
  | [] => some w
  | (name, j) :: rest =>
      match PoolType.ofText? name, (ofJson? j : Option UInt64) with
      | some t, some points => ofMembers? (w.insert t points) rest
      | _, _ => none

end PoolWeights

instance : Codec PoolWeights where
  toJson w := .object (w.toList.map fun e => (e.1.text, toJson e.2))
  ofJson?
    | .object members => PoolWeights.ofMembers? .empty members
    | _ => none

end Backrun
