import Backrun.Error

/-!
# Base denominations

The denominations in which cycles start and end, in order of preference, each
with the step by which the input of a cycle is sized.
-/

namespace Backrun

/-- A denomination in which cycles may start. -/
structure BaseDenom where
  denom : Denom
  /-- Inputs are multiples of this amount. -/
  stepSize : Amount
  deriving DecidableEq, Repr

instance : Codec BaseDenom where
  toJson b := .object [("denom", toJson b.denom), ("step_size", toJson b.stepSize)]
  ofJson? j :=
    match Fields.ofJson? ["denom", "step_size"] j with
    | some ⟨_, [denom, stepSize]⟩ => do
        return ⟨← Fields.required denom, ← Fields.required stepSize⟩
    | _ => none

namespace BaseDenom

/-- The first position of a denomination in a list. -/
def position? (bases : List BaseDenom) (d : Denom) : Option Nat :=
  bases.findIdx? fun b => b.denom == d

/-- The first fault of a list: a denomination that was `seen` before, or a zero step. -/
def listFault? (seen : List Denom) : List BaseDenom → Option RegistryFault
  | [] => none
  | b :: rest =>
      if b.denom ∈ seen then some (.baseTwice b.denom)
      else if b.stepSize = 0 then some (.zeroStep b.denom)
      else listFault? (b.denom :: seen) rest

/-- Accepts a list of different denominations with positive steps that is not empty. -/
def validateList (bases : List BaseDenom) : Except RegistryFault Unit :=
  if bases.isEmpty then .error .noBaseDenoms
  else
    match listFault? [] bases with
    | some fault => .error fault
    | none => .ok ()

end BaseDenom

end Backrun
