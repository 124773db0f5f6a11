import Backrun.Store.Action

/-!
# Calls to the outside

The pools and the balances are kept by others, in the same store.  An inspection
looks up keys and may refuse.  An effect may also write, and what it has written
stays when it refuses.  Neither opens or closes branches.
-/

namespace Backrun

/-- The store as those outside see it: the value under each key. -/
abbrev View := Bytes → Option Bytes

/-- A view after one write. -/
def View.after (v : View) (w : Write) : View := fun k => if k = w.key then w.value else v k

/-- A look at the store from outside that may be refused. -/
abbrev Inspection := ReaderT View (Except Fault)

/-- A change from outside: what it comes to and the writes that it makes. -/
def Effect (α : Type) := View → Except Fault α × List Write

namespace Effect

/-- The second effect sees the writes of the first, unless that one refuses. -/
instance : Monad Effect where
  pure a := fun _ => (.ok a, [])
  bind a f := fun v =>
    match a v with
    | (.ok x, writes) =>
        let (result, more) := f x (writes.foldl View.after v)
        (result, writes ++ more)
    | (.error fault, writes) => (.error fault, writes)

/-- Refuses. -/
def refuse {α : Type} (fault : Fault) : Effect α := fun _ => (.error fault, [])

/-- Writes a record. -/
def save {α : Type} [Codec α] (k : Bytes) (a : α) : Effect Unit := fun _ =>
  (.ok (), [⟨k, some (Codec.encode a)⟩])

end Effect

/-- An inspection is an effect that writes nothing. -/
instance : MonadLift Inspection Effect where
  monadLift i := fun v => (i v, [])

/-- Asks those outside, and says in words of the engine what they refuse. -/
def Query.inspect {α : Type} (i : Inspection α) (explain : Fault → Error) : Query α := fun s =>
  (i s.get).mapError explain

/-- Lets those outside change the store, and says in words of the engine what they refuse. -/
def Action.call {α : Type} (effect : Effect α) (explain : Fault → Error) : Action α :=
  ExceptT.mk fun s =>
    let (result, writes) := effect s.get
    (result.mapError explain, s.writeAll writes)

end Backrun
