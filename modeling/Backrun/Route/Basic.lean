import Backrun.Route.Hop

/-!
# Routes

A route is a sequence of hops.  An admissible route is a cycle: every hop changes
the denomination, each hop starts where the one before it ends, and the last hop
returns to the base denomination in which the first one starts.
-/

namespace Backrun

/-- What is wrong with a route. -/
inductive RouteFault where
  | hopCount (mostHops : UInt64) (count : Nat)
  | selfSwap (hop : Hop)
  | broken (before after : Hop)
  | opened (start finish : Denom)
  deriving DecidableEq, Repr

namespace RouteFault

/-- The fault in words. -/
def message : RouteFault → String
  | .hopCount mostHops count =>
      "route must have between 2 and " ++ toString mostHops ++ " hops, got " ++ toString count
  | .selfSwap hop => "hop " ++ hop.text ++ " swaps a denom into itself"
  | .broken before after =>
      "hop " ++ before.text ++ " does not chain into hop " ++ after.text
  | .opened start finish => "route starting in " ++ start.text ++ " ends in " ++ finish.text

end RouteFault

/-- A sequence of hops. -/
structure Route where
  hops : List Hop
  deriving DecidableEq, Repr

namespace Route

/-- The denomination in which the first hop starts. -/
def base? (r : Route) : Option Denom := r.hops.head?.map Hop.denomIn

/-- The denomination in which the last hop ends. -/
def finish? (r : Route) : Option Denom := r.hops.getLast?.map Hop.denomOut

/-- The first hop that does not start where the one before it ends, with that one. -/
def firstBreak : List Hop → Option (Hop × Hop)
  | h :: h' :: rest => if h.denomOut = h'.denomIn then firstBreak (h' :: rest) else some (h, h')
  | _ => none

/-- Whether some hop trades between `a` and `b`. -/
def touches (r : Route) (a b : Denom) : Bool := r.hops.any fun h => h.touches a b

/-- Accepts the cycles of two to `mostHops` hops. -/
def validate (mostHops : UInt64) (r : Route) : Except RouteFault Unit :=
  if r.hops.length < 2 ∨ mostHops.toNat < r.hops.length then
    .error (.hopCount mostHops r.hops.length)
  else
    match r.hops.find? fun h => h.denomIn == h.denomOut with
    | some h => .error (.selfSwap h)
    | none =>
        match firstBreak r.hops with
        | some (h, h') => .error (.broken h h')
        | none =>
            match r.base?, r.finish? with
            | some start, some finish =>
                if start = finish then .ok () else .error (.opened start finish)
            | _, _ => .error (.hopCount mostHops r.hops.length)

/-- The base denomination and the pools in order. -/
def text (r : Route) : String :=
  match r.base? with
  | some base =>
      base.text ++ " via pools ["
        ++ ",".intercalate (r.hops.map fun h => toString h.poolId) ++ "]"
  | none => "empty route"

end Route

instance : Codec Route where
  toJson r := .object [("hops", toJson r.hops)]
  ofJson? j :=
    match Fields.ofJson? ["hops"] j with
    | some ⟨_, [hops]⟩ => do return ⟨← Fields.required hops⟩
    | _ => none

end Backrun
