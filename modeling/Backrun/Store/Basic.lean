import Backrun.Store.KeyMap

/-!
# The store

All state lives in one map from byte keys to byte values.  A branch buffers writes
on top of the map, or on top of another branch, until it is committed into what
lies under it or discarded.  Reads see the newest write; a walk over keys merges
the buffers with the map below, in ascending key order.
-/

namespace Backrun

/-- A value to put under a key, or its removal. -/
structure Write where
  key : Bytes
  value : Option Bytes
  deriving DecidableEq, Repr

/-- Writes that are not yet applied: the last one for each key. -/
abbrev Pending := KeyMap (Option Bytes)

/-- Applies pending writes to a map. -/
def Pending.applyTo (pending : Pending) (below : KeyMap Bytes) : KeyMap Bytes :=
  pending.entries.foldl (fun m e =>
    match e.2 with
    | some v => m.insert e.1 v
    | none => m.erase e.1) below

/-- A map under a stack of open branches, the innermost branch first. -/
structure Store where
  root : KeyMap Bytes
  branches : List Pending
  deriving DecidableEq

namespace Store

/-- The store without entries and branches. -/
def empty : Store := ⟨.empty, []⟩

/-! ## Reading -/

/-- The value under a key: that of the innermost branch which writes it, else of the root. -/
def get (s : Store) (k : Bytes) : Option Bytes :=
  (s.branches.findSome? fun pending => pending.find? k).getD (s.root.find? k)

/-- Whether a key has a value. -/
def has (s : Store) (k : Bytes) : Bool := (s.get k).isSome

/-- The entries whose keys begin with the given bytes, branches merged from the
outermost to the innermost. -/
def under (s : Store) (start : Bytes) : KeyMap Bytes :=
  s.branches.foldr (fun pending below => Pending.applyTo (pending.restrict start) below)
    (s.root.restrict start)

/-- All entries. -/
def contents (s : Store) : KeyMap Bytes := s.under []

/-! ## Writing -/

/-- Writes to the innermost branch, or to the root if none is open. -/
def write (s : Store) (k : Bytes) (value : Option Bytes) : Store :=
  match s.branches with
  | pending :: rest => { s with branches := pending.insert k value :: rest }
  | [] =>
      match value with
      | some v => { s with root := s.root.insert k v }
      | none => { s with root := s.root.erase k }

/-- Puts a value under a key. -/
def set (s : Store) (k v : Bytes) : Store := s.write k (some v)

/-- Removes the value under a key. -/
def delete (s : Store) (k : Bytes) : Store := s.write k none

/-- Makes writes in order. -/
def writeAll (s : Store) (writes : List Write) : Store :=
  writes.foldl (fun t w => t.write w.key w.value) s

/-- Removes every entry whose key begins with the given bytes. -/
def deleteUnder (s : Store) (start : Bytes) : Store :=
  (s.under start).entries.foldl (fun t e => t.delete e.1) s

/-! ## Branches -/

/-- Opens a branch on top. -/
def openBranch (s : Store) : Store := { s with branches := .empty :: s.branches }

/-- How many keys the innermost branch writes. -/
def pendingWrites (s : Store) : Nat :=
  match s.branches with
  | pending :: _ => pending.size
  | [] => 0

/-- Closes the innermost branch and makes its writes, in key order, in what lies under it. -/
def commit (s : Store) : Store :=
  match s.branches with
  | pending :: rest =>
      pending.entries.foldl (fun t e => t.write e.1 e.2) { s with branches := rest }
  | [] => s

/-- Closes the innermost branch and forgets its writes. -/
def discard (s : Store) : Store := { s with branches := s.branches.tail }

end Store

end Backrun
