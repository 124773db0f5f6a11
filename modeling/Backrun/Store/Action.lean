import Backrun.Error
import Backrun.Store.Basic
import Backrun.Store.Keys

/-!
# Queries and actions

A query reads records of the store.  An action may write as well, and what it has
written stays when it fails; `Action.atomically` runs an action in a branch of
its own, so that a failure leaves nothing behind.
-/

namespace Backrun

/-! ## Queries -/

/-- A computation that reads the store and may fail. -/
abbrev Query := ReaderT Store (Except Error)

namespace Query

/-- The record that stored bytes hold. -/
def read {α : Type} [Codec α] (bytes : Bytes) : Except Error α :=
  match Codec.decode? bytes with
  | some a => .ok a
  | none => .error .codec

/-- The record under a key, if there is one. -/
def find {α : Type} [Codec α] (k : Bytes) : Query (Option α) := fun s =>
  match s.get k with
  | some bytes => (read bytes).map some
  | none => .ok none

/-- The record under a key that has to be there. -/
def load {α : Type} [Codec α] (k : Bytes) (missing : Missing) : Query α := do
  match ← find k with
  | some a => return a
  | none => throw (.notFound missing)

/-- The records under all keys that begin with the given bytes, in key order. -/
def loadAll {α : Type} [Codec α] (start : Bytes) : Query (List α) := fun s =>
  (s.under start).entries.mapM fun e => read e.2

/-- The answer of a query, or none where the search passes over its failure. -/
def unlessRecoverable {α : Type} (q : Query α) : Query (Option α) := fun s =>
  match q s with
  | .ok a => .ok (some a)
  | .error e => if e.isRecoverable then .ok none else .error e

/-- The answer of a query, or none where what it looks for is missing. -/
def unlessMissing {α : Type} (q : Query α) : Query (Option α) := fun s =>
  match q s with
  | .ok a => .ok (some a)
  | .error (.notFound _) => .ok none
  | .error e => .error e

end Query

/-! ## Actions -/

/-- A computation that reads and writes the store and may fail. -/
abbrev Action := ExceptT Error (StateM Store)

/-- A query is an action that writes nothing. -/
instance : MonadLift Query Action where
  monadLift q := ExceptT.mk fun s => (q s, s)

namespace Action

/-- What an action comes to, and the store that it leaves. -/
def perform {α : Type} (a : Action α) (s : Store) : Except Error α × Store :=
  StateT.run (ExceptT.run a) s

/-- Changes the store. -/
def update (f : Store → Store) : Action Unit := ExceptT.mk fun s => (.ok (), f s)

/-- Writes a record. -/
def save {α : Type} [Codec α] (k : Bytes) (a : α) : Action Unit :=
  update fun s => s.set k (Codec.encode a)

/-- Removes the record under a key. -/
def delete (k : Bytes) : Action Unit := update fun s => s.delete k

/-- Removes the records under all keys that begin with the given bytes. -/
def deleteUnder (start : Bytes) : Action Unit := update fun s => s.deleteUnder start

/-- Runs an action in a branch, which is committed if the action succeeds and
discarded if it fails. -/
def atomically {α : Type} (a : Action α) : Action α := ExceptT.mk fun s =>
  match a.perform s.openBranch with
  | (.ok x, t) => (.ok x, t.commit)
  | (.error e, t) => (.error e, t.discard)

/-! ## What actions come to -/

@[simp]
theorem perform_pure {α : Type} (a : α) (s : Store) :
    (pure a : Action α).perform s = (.ok a, s) := rfl

@[simp]
theorem perform_throw {α : Type} (e : Error) (s : Store) :
    (throw e : Action α).perform s = (.error e, s) := rfl

/-- The second action runs on what the first one leaves, unless that one fails. -/
theorem perform_bind {α β : Type} (a : Action α) (f : α → Action β) (s : Store) :
    (a >>= f).perform s =
      match a.perform s with
      | (.ok x, t) => (f x).perform t
      | (.error e, t) => (.error e, t) := by
  simp only [perform, bind, ExceptT.bind, ExceptT.run, ExceptT.mk, StateT.run, StateT.bind]
  rcases a s with ⟨_ | _, t⟩ <;> rfl

/-- A query leaves the store as it is. -/
@[simp]
theorem perform_query {α : Type} (q : Query α) (s : Store) :
    (monadLift q : Action α).perform s = (q s, s) := rfl

@[simp]
theorem perform_update (f : Store → Store) (s : Store) : (update f).perform s = (.ok (), f s) := rfl

end Action

end Backrun
