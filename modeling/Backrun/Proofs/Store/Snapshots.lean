import Backrun.Proofs.Store.Views

/-!
# Nested branches refine plain snapshots

A stack of branches keeps only what each branch changes.  The reference machine
`Snapshots` keeps whole maps instead: opening a branch copies the map on top,
changes go to the map on top, a commit puts it in place of the one below and a
discard drops it.  Both machines obey the same commands, and give the same answers.

* `Store.snapshots` — the whole maps that a stack of branches stands for.
* `Store.obey_snapshots` — one command: the same answer, and the same maps after it.
* `Store.obeyAll_snapshots` — any number of commands, by induction.

With no branch open there is nothing to close, and both machines then ignore a
commit and a discard.
-/

namespace Backrun

namespace Store

/-! ## The commands -/

/-- What can be asked of a stack of nested branches. -/
inductive Command where
  /-- Reads the value under a key. -/
  | get (key : Bytes)
  /-- Asks whether a key has a value. -/
  | has (key : Bytes)
  /-- Walks over the entries whose keys begin with the given bytes. -/
  | list (start : Bytes)
  | set (key value : Bytes)
  | delete (key : Bytes)
  /-- Removes the entries whose keys begin with the given bytes. -/
  | deleteUnder (start : Bytes)
  | openBranch
  | commit
  | discard
  deriving DecidableEq, Repr

/-- What a command answers. -/
inductive Answer where
  /-- A command that reads nothing. -/
  | done
  | value (value : Option Bytes)
  | held (isHeld : Bool)
  | entries (entries : List (Bytes × Bytes))
  deriving DecidableEq, Repr

/-- A command to the store. -/
def obey (s : Store) : Command → Answer × Store
  | .get k => (.value (s.get k), s)
  | .has k => (.held (s.has k), s)
  | .list start => (.entries (s.under start).entries, s)
  | .set k v => (.done, s.set k v)
  | .delete k => (.done, s.delete k)
  | .deleteUnder start => (.done, s.deleteUnder start)
  | .openBranch => (.done, s.openBranch)
  | .commit => (.done, s.commit)
  | .discard => (.done, s.discard)

/-- The answers to commands in order, and the store after them. -/
def obeyAll : List Command → Store → List Answer × Store
  | [], s => ([], s)
  | c :: cs, s =>
      let answer := s.obey c
      let rest := obeyAll cs answer.2
      (answer.1 :: rest.1, rest.2)

end Store

/-! ## The reference machine -/

/-- Whole maps: the one that commands see, and the ones it was copied from, the
nearest first. -/
structure Snapshots where
  top : KeyMap Bytes
  below : List (KeyMap Bytes)
  deriving DecidableEq

namespace Snapshots

open Store (Command Answer)

/-- The map under all copies. -/
def root : Snapshots → KeyMap Bytes
  | ⟨top, below⟩ => below.getLastD top

/-- Puts the map on top in place of the one below. -/
def commit : Snapshots → Snapshots
  | ⟨top, _ :: below⟩ => ⟨top, below⟩
  | s => s

/-- Drops the map on top. -/
def discard : Snapshots → Snapshots
  | ⟨_, next :: below⟩ => ⟨next, below⟩
  | s => s

/-- A command to the reference machine. -/
def obey (s : Snapshots) : Command → Answer × Snapshots
  | .get k => (.value (s.top.find? k), s)
  | .has k => (.held (s.top.find? k).isSome, s)
  | .list start => (.entries (s.top.entries.filter fun e => start.isPrefixOf e.1), s)
  | .set k v => (.done, { s with top := s.top.insert k v })
  | .delete k => (.done, { s with top := s.top.erase k })
  | .deleteUnder start => (.done, { s with top := s.top.filterKeys fun k => !start.isPrefixOf k })
  | .openBranch => (.done, ⟨s.top, s.top :: s.below⟩)
  | .commit => (.done, s.commit)
  | .discard => (.done, s.discard)

/-- The answers to commands in order, and the maps after them. -/
def obeyAll : List Command → Snapshots → List Answer × Snapshots
  | [], s => ([], s)
  | c :: cs, s =>
      let answer := s.obey c
      let rest := obeyAll cs answer.2
      (answer.1 :: rest.1, rest.2)

end Snapshots

namespace Store

variable {s t : Store}

/-! ## The maps behind a stack of branches -/

/-- The whole maps that branches over a root stand for. -/
def snapshotsOver (root : KeyMap Bytes) : List Pending → Snapshots
  | [] => ⟨root, []⟩
  | pending :: rest =>
      let under := snapshotsOver root rest
      ⟨pending.applyTo under.top, under.top :: under.below⟩

/-- The whole maps that a store stands for. -/
def snapshots (s : Store) : Snapshots := snapshotsOver s.root s.branches

/-- The store and the map on top hold the same. -/
theorem find?_top (s : Store) (k : Bytes) : s.snapshots.top.find? k = s.get k := by
  obtain ⟨root, branches⟩ := s
  induction branches with
  | nil => rfl
  | cons pending rest ih =>
      change (pending.applyTo (snapshots ⟨root, rest⟩).top).find? k = _
      rw [Pending.find?_applyTo, ih]
      simp only [get, List.findSome?_cons]
      cases pending.find? k <;> rfl

/-- The lowest map is the root. -/
theorem root_snapshots (s : Store) : s.snapshots.root = s.root := by
  obtain ⟨root, branches⟩ := s
  induction branches with
  | nil => rfl
  | cons pending rest ih =>
      let under := snapshots ⟨root, rest⟩
      change (under.top :: under.below).getLastD (pending.applyTo under.top) = root
      rw [List.getLastD_cons]
      exact ih

/-- The maps of a store are known by what the store holds and by the maps below. -/
theorem snapshots_eq {maps : Snapshots} (htop : ∀ k, t.get k = maps.top.find? k)
    (hbelow : t.snapshots.below = maps.below) : t.snapshots = maps := by
  obtain ⟨top, below⟩ := maps
  have hmap : t.snapshots.top = top := KeyMap.ext_find? fun k => by rw [find?_top, htop]
  cases hsnap : t.snapshots
  simp only [hsnap] at hmap hbelow
  rw [hmap, hbelow]

/-- A write goes to the map on top. -/
theorem below_write (s : Store) (k : Bytes) (value : Option Bytes) :
    (s.write k value).snapshots.below = s.snapshots.below := by
  obtain ⟨root, branches⟩ := s
  cases branches with
  | nil => cases value <;> rfl
  | cons pending rest => rfl

theorem below_foldl_write {α : Type} (key : α → Bytes) (value : α → Option Bytes) (es : List α)
    (s : Store) :
    (es.foldl (fun t e => t.write (key e) (value e)) s).snapshots.below = s.snapshots.below := by
  induction es generalizing s with
  | nil => rfl
  | cons e es ih =>
      rw [List.foldl_cons, ih]
      exact below_write s (key e) (value e)

/-- A walk finds the entries of the map on top that begin with the given bytes. -/
theorem under_eq_filterKeys (s : Store) (start : Bytes) :
    s.under start = s.snapshots.top.filterKeys fun k => start.isPrefixOf k := by
  refine KeyMap.ext_find? fun k => ?_
  rw [find?_under, KeyMap.find?_filterKeys, find?_top]
  simp only [List.isPrefixOf_iff_prefix]

/-! ## One command -/

theorem snapshots_set (s : Store) (k v : Bytes) :
    (s.set k v).snapshots = { s.snapshots with top := s.snapshots.top.insert k v } := by
  refine snapshots_eq (fun k' => ?_) (below_write s k (some v))
  rw [get_set, KeyMap.find?_insert, find?_top]

theorem snapshots_delete (s : Store) (k : Bytes) :
    (s.delete k).snapshots = { s.snapshots with top := s.snapshots.top.erase k } := by
  refine snapshots_eq (fun k' => ?_) (below_write s k none)
  rw [get_delete, KeyMap.find?_erase, find?_top]

theorem snapshots_deleteUnder (s : Store) (start : Bytes) :
    (s.deleteUnder start).snapshots
      = { s.snapshots with
          top := s.snapshots.top.filterKeys fun k => !start.isPrefixOf k } := by
  refine snapshots_eq (fun k => ?_)
    (below_foldl_write Prod.fst (fun _ => none) (s.under start).entries s)
  rw [get_deleteUnder, KeyMap.find?_filterKeys, find?_top]
  by_cases hstart : start <+: k
  · rw [if_pos hstart, List.isPrefixOf_iff_prefix.2 hstart]
    rfl
  · have htest : start.isPrefixOf k = false := by
      rw [← Bool.not_eq_true, List.isPrefixOf_iff_prefix]
      exact hstart
    rw [if_neg hstart, htest]
    rfl

/-- A commit writes the whole branch into the layer under it, and so leaves there what the
branch showed: the map below is replaced by the one on top. -/
theorem snapshots_commit (s : Store) : s.commit.snapshots = s.snapshots.commit := by
  obtain ⟨root, branches⟩ := s
  cases branches with
  | nil => rfl
  | cons pending rest =>
      refine snapshots_eq (fun k => ?_) ?_
      · rw [get_commit, ← find?_top]
        rfl
      · exact below_foldl_write Prod.fst Prod.snd pending.entries ⟨root, rest⟩

theorem snapshots_discard (s : Store) : s.discard.snapshots = s.snapshots.discard := by
  obtain ⟨root, branches⟩ := s
  cases branches with
  | nil => rfl
  | cons pending rest => rfl

/-- An empty branch shows the map under it. -/
theorem snapshots_openBranch (s : Store) :
    s.openBranch.snapshots = ⟨s.snapshots.top, s.snapshots.top :: s.snapshots.below⟩ :=
  rfl

/-- One command has the same answer on both machines, and leaves the same maps. -/
theorem obey_snapshots (s : Store) (c : Command) :
    s.snapshots.obey c = ((s.obey c).1, (s.obey c).2.snapshots) := by
  cases c with
  | get k => simp only [obey, Snapshots.obey, find?_top]
  | has k => simp only [obey, Snapshots.obey, has, find?_top]
  | list start =>
      simp only [obey, Snapshots.obey, under_eq_filterKeys]
      rfl
  | set k v => simp only [obey, Snapshots.obey, snapshots_set]
  | delete k => simp only [obey, Snapshots.obey, snapshots_delete]
  | deleteUnder start => simp only [obey, Snapshots.obey, snapshots_deleteUnder]
  | openBranch => simp only [obey, Snapshots.obey, snapshots_openBranch]
  | commit => simp only [obey, Snapshots.obey, snapshots_commit]
  | discard => simp only [obey, Snapshots.obey, snapshots_discard]

/-- Entries are answered in ascending key order. -/
theorem ascending_of_obey {c : Command} {es : List (Bytes × Bytes)}
    (h : .entries es = (s.obey c).1) : Ascending es := by
  cases c with
  | list start =>
      obtain rfl := Answer.entries.inj h
      exact (s.under start).ascending
  | get k | has k | set k v | delete k | deleteUnder start | openBranch | commit | discard =>
      exact absurd h (by simp [obey])

/-! ## Any number of commands -/

/-- Commands in order have the same answers on both machines, and leave the same maps. -/
theorem obeyAll_snapshots (commands : List Command) (s : Store) :
    s.snapshots.obeyAll commands
      = ((s.obeyAll commands).1, (s.obeyAll commands).2.snapshots) := by
  induction commands generalizing s with
  | nil => rfl
  | cons c cs ih => simp only [obeyAll, Snapshots.obeyAll, obey_snapshots, ih]

theorem ascending_of_obeyAll {commands : List Command} {es : List (Bytes × Bytes)}
    (h : .entries es ∈ (s.obeyAll commands).1) : Ascending es := by
  induction commands generalizing s with
  | nil => exact absurd h List.not_mem_nil
  | cons c cs ih =>
      rcases List.mem_cons.1 h with hfirst | hrest
      · exact ascending_of_obey hfirst
      · exact ih hrest

/-- **Branches refine snapshots.**  From any map, any commands have the answers that the
machine of whole maps gives, walks list their entries in ascending key order, and the root
ends as the lowest of the whole maps. -/
theorem refines_snapshots (m : KeyMap Bytes) (commands : List Command) :
    let run := obeyAll commands ⟨m, []⟩
    let reference := Snapshots.obeyAll commands ⟨m, []⟩
    run.1 = reference.1 ∧ (∀ es, .entries es ∈ run.1 → Ascending es)
      ∧ run.2.root = reference.2.root := by
  intro run reference
  have hsame : reference = (run.1, run.2.snapshots) := obeyAll_snapshots commands ⟨m, []⟩
  refine ⟨?_, fun es => ascending_of_obeyAll, ?_⟩
  · rw [hsame]
  · rw [hsame]
    exact (root_snapshots run.2).symm

/-- A removal two layers up survives both commits, and a key that is set again after its
removal is back in the walk. -/
example :
    let m : KeyMap Bytes := (KeyMap.empty.insert [1] [10]).insert [1, 2] [12]
    (obeyAll [.openBranch, .openBranch, .deleteUnder [1], .set [1, 2] [7], .list [], .commit,
        .has [1], .commit, .list [1]] ⟨m, []⟩).1
      = [.done, .done, .done, .done, .entries [([1, 2], [7])], .done, .held false, .done,
        .entries [([1, 2], [7])]] := by
  decide

end Store

end Backrun
