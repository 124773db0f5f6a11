import Backrun.Text.Bytes

/-!
# Ordered maps over byte keys

A map is its list of entries in strictly ascending key order, so two maps with
the same entries are equal.  `find?_insert` and `find?_erase` say what the two
updates do to a look-up.
-/

namespace Backrun

/-- Entries whose keys ascend strictly. -/
abbrev Ascending {α : Type} (entries : List (Bytes × α)) : Prop :=
  entries.Pairwise fun x y => x.1 < y.1

namespace KeyMap

/-- Puts an entry into its place, in place of one with the same key. -/
def insertEntry {α : Type} (k : Bytes) (v : α) : List (Bytes × α) → List (Bytes × α)
  | [] => [(k, v)]
  | e :: es =>
      if k < e.1 then (k, v) :: e :: es
      else if k = e.1 then (k, v) :: es
      else e :: insertEntry k v es

theorem mem_insertEntry {α : Type} {k : Bytes} {v : α} {es : List (Bytes × α)} {x : Bytes × α}
    (h : x ∈ insertEntry k v es) : x = (k, v) ∨ x ∈ es := by
  induction es with
  | nil => simpa [insertEntry] using h
  | cons e es ih =>
      rw [insertEntry] at h
      split at h
      · simpa using h
      · split at h
        · rcases List.mem_cons.1 h with h | h
          · exact .inl h
          · exact .inr (List.mem_cons_of_mem _ h)
        · rcases List.mem_cons.1 h with h | h
          · exact .inr (h ▸ List.mem_cons_self)
          · rcases ih h with h | h
            · exact .inl h
            · exact .inr (List.mem_cons_of_mem _ h)

theorem key_lt_of_not {k k' : Bytes} (h : ¬ k < k') (hne : k ≠ k') : k' < k := by
  rcases Std.Trichotomous.rel_or_eq_or_rel_swap (r := fun a b : Bytes => a < b) (a := k) (b := k')
    with h' | h' | h'
  · exact absurd h' h
  · exact absurd h' hne
  · exact h'

theorem ascending_insertEntry {α : Type} {k : Bytes} {v : α} {es : List (Bytes × α)}
    (h : Ascending es) : Ascending (insertEntry k v es) := by
  induction es with
  | nil => simp [insertEntry, Ascending]
  | cons e es ih =>
      have h' := List.pairwise_cons.1 h
      rw [insertEntry]
      split
      · rename_i hlt
        refine List.pairwise_cons.2 ⟨fun x hx => ?_, h⟩
        rcases List.mem_cons.1 hx with rfl | hx
        · exact hlt
        · exact List.lt_trans hlt (h'.1 x hx)
      · split
        · rename_i heq
          refine List.pairwise_cons.2 ⟨fun x hx => ?_, h'.2⟩
          subst heq
          exact h'.1 x hx
        · rename_i hge hne
          refine List.pairwise_cons.2 ⟨fun x hx => ?_, ih h'.2⟩
          rcases mem_insertEntry hx with rfl | hx
          · exact key_lt_of_not hge hne
          · exact h'.1 x hx

end KeyMap

/-- A map from byte keys, as its entries in ascending key order. -/
structure KeyMap (α : Type) where
  entries : List (Bytes × α)
  ascending : Ascending entries
  deriving DecidableEq

namespace KeyMap

variable {α : Type}

/-- Maps with the same entries are equal. -/
@[ext]
theorem ext {m n : KeyMap α} (h : m.entries = n.entries) : m = n := by
  cases m; cases n; cases h; rfl

/-- The map without entries. -/
def empty : KeyMap α := ⟨[], List.Pairwise.nil⟩

/-- How many entries there are. -/
def size (m : KeyMap α) : Nat := m.entries.length

/-- The value under a key. -/
def find? (m : KeyMap α) (k : Bytes) : Option α := (m.entries.find? fun e => e.1 == k).map Prod.snd

/-- Sets the value under a key. -/
def insert (m : KeyMap α) (k : Bytes) (v : α) : KeyMap α :=
  ⟨insertEntry k v m.entries, ascending_insertEntry m.ascending⟩

/-- The entries whose keys satisfy a test. -/
def filterKeys (m : KeyMap α) (p : Bytes → Bool) : KeyMap α :=
  ⟨m.entries.filter fun e => p e.1, m.ascending.filter _⟩

/-- Removes the entry under a key. -/
def erase (m : KeyMap α) (k : Bytes) : KeyMap α := m.filterKeys fun k' => k' != k

theorem find?_insertEntry (k k' : Bytes) (v : α) (es : List (Bytes × α)) :
    ((insertEntry k v es).find? fun e => e.1 == k')
      = if k' = k then some (k, v) else es.find? fun e => e.1 == k' := by
  induction es with
  | nil =>
      by_cases h : k' = k
      · simp [insertEntry, h]
      · simp [insertEntry, h, Ne.symm h]
  | cons e es ih =>
      by_cases hk : k' = k
      · subst hk
        rw [insertEntry]
        split
        · simp
        · split
          · simp
          · rename_i hne
            simp [Ne.symm hne, ih]
      · rw [insertEntry]
        split
        · simp [List.find?_cons, Ne.symm hk]
        · split
          · rename_i heq
            simp [← heq, Ne.symm hk]
          · simp [List.find?_cons, ih, hk]

/-- Setting a key changes that key and no other. -/
theorem find?_insert (m : KeyMap α) (k k' : Bytes) (v : α) :
    (m.insert k v).find? k' = if k' = k then some v else m.find? k' := by
  simp only [find?, insert, find?_insertEntry]
  split <;> rfl

/-- A filter keeps the value of each key that satisfies the test and drops the others. -/
theorem find?_filterKeys (m : KeyMap α) (p : Bytes → Bool) (k : Bytes) :
    (m.filterKeys p).find? k = if p k then m.find? k else none := by
  simp only [find?, filterKeys, List.find?_filter]
  split
  · rename_i hp
    congr 2
    funext e
    by_cases h : e.1 = k
    · simp [h, hp]
    · simp [h]
  · rename_i hp
    rw [Option.map_eq_none_iff, List.find?_eq_none]
    intro e _
    by_cases h : e.1 = k
    · simp [h, hp]
    · simp [h]

/-- Removing a key changes that key and no other. -/
theorem find?_erase (m : KeyMap α) (k k' : Bytes) :
    (m.erase k).find? k' = if k' = k then none else m.find? k' := by
  rw [erase, find?_filterKeys]
  by_cases h : k' = k <;> simp [h]

/-- The entries whose keys begin with the given bytes.  The walk starts at the first key that
is not below them and stops at the first one that does not begin with them. -/
def restrict (m : KeyMap α) (start : Bytes) : KeyMap α :=
  ⟨(m.entries.dropWhile fun e => decide (e.1 < start)).takeWhile fun e => start.isPrefixOf e.1,
    m.ascending.sublist ((List.takeWhile_sublist _).trans (List.dropWhile_sublist _))⟩

end KeyMap

end Backrun
