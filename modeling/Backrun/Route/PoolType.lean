import Backrun.Codec.Basic

/-!
# Pool families

The families of pools that a hop may cross.
-/

namespace Backrun

/-- The number that identifies a pool. -/
abbrev PoolId := UInt64

/-- A family of pools. -/
inductive PoolType where
  | balancer
  | stable
  | concentrated
  deriving DecidableEq, Repr

namespace PoolType

/-- The name of a family. -/
def text : PoolType → String
  | .balancer => "balancer"
  | .stable => "stable"
  | .concentrated => "concentrated"

/-- The family of the given name. -/
def ofText? (s : String) : Option PoolType :=
  if s = "balancer" then some .balancer
  else if s = "stable" then some .stable
  else if s = "concentrated" then some .concentrated
  else none

end PoolType

/-- A family is given by its name, or by an object that maps its name to `null`. -/
instance : Codec PoolType where
  toJson t := .text t.text
  ofJson?
    | .text s => PoolType.ofText? s
    | .object [(s, .null)] => PoolType.ofText? s
    | _ => none

end Backrun
