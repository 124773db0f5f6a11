import Backrun.Store.KeyMap

/-!
# Ordered maps by their look-ups

A map is determined by its look-ups, and its entries are the keys with their values.
So what two maps hold can be compared key by key.
-/

namespace Backrun.KeyMap

variable {α : Type}

@[simp]
theorem find?_empty (k : Bytes) : (empty : KeyMap α).find? k = none := rfl

/-- Only one entry has a key. -/
theorem eq_of_mem_entries {m : KeyMap α} {x y : Bytes × α} (hx : x ∈ m.entries)
    (hy : y ∈ m.entries) (h : x.1 = y.1) : x = y := by
  obtain ⟨es, hes⟩ := m
  change x ∈ es at hx
  change y ∈ es at hy
  induction es with
  | nil => exact absurd hx List.not_mem_nil
  | cons e es ih =>
      obtain ⟨hfirst, hrest⟩ := List.pairwise_cons.1 hes
      rcases List.mem_cons.1 hx with rfl | hx'
      · rcases List.mem_cons.1 hy with rfl | hy'
        · rfl
        · exact absurd (hfirst y hy') (h ▸ List.lt_irrefl x.1)
      · rcases List.mem_cons.1 hy with rfl | hy'
        · exact absurd (hfirst x hx') (h ▸ List.lt_irrefl x.1)
        · exact ih hrest hx' hy'

/-- The entries are the keys with the values found under them. -/
theorem mem_entries_iff {m : KeyMap α} {k : Bytes} {v : α} :
    (k, v) ∈ m.entries ↔ m.find? k = some v := by
  constructor
  · intro h
    cases hfind : m.entries.find? fun e => e.1 == k with
    | none =>
        have hnone := List.find?_eq_none.1 hfind (k, v) h
        simp at hnone
    | some e =>
        have hkey : e.1 = k := by simpa using List.find?_some hfind
        have heq := eq_of_mem_entries (List.mem_of_find?_eq_some hfind) h hkey
        simp [find?, hfind, heq]
  · intro h
    rw [find?, Option.map_eq_some_iff] at h
    obtain ⟨e, he, rfl⟩ := h
    have hkey : e.1 = k := by simpa using List.find?_some he
    exact hkey ▸ List.mem_of_find?_eq_some he

/-- Two ascending lists with the same elements are the same. -/
theorem eq_of_ascending {xs ys : List (Bytes × α)} (hxs : Ascending xs) (hys : Ascending ys)
    (h : ∀ x, x ∈ xs ↔ x ∈ ys) : xs = ys := by
  have hnodup : ∀ zs : List (Bytes × α), Ascending zs → zs.Nodup := by
    intro zs hzs
    refine List.Pairwise.imp (fun {x y} (hlt : x.1 < y.1) (heq : x = y) => ?_) hzs
    rw [heq] at hlt
    exact List.lt_irrefl y.1 hlt
  have hperm := (List.perm_ext_iff_of_nodup (hnodup xs hxs) (hnodup ys hys)).2 h
  refine hperm.eq_of_pairwise (fun x y _ _ hxy hyx => ?_) hxs hys
  exact absurd (List.lt_trans hxy hyx) (List.lt_irrefl x.1)

/-- Maps in which the same is found are equal. -/
theorem ext_find? {m n : KeyMap α} (h : ∀ k, m.find? k = n.find? k) : m = n := by
  refine ext (eq_of_ascending m.ascending n.ascending fun x => ?_)
  obtain ⟨k, v⟩ := x
  rw [mem_entries_iff, mem_entries_iff, h]

/-! ## Walks over a beginning

The keys with a given beginning stand next to each other, so that a walk which stops at the
first other key misses none of them. -/

/-- No key with a beginning is below it. -/
theorem not_lt_of_isPrefix {start k : Bytes} (h : start <+: k) : ¬ k < start := by
  induction start generalizing k with
  | nil => exact List.not_lt_nil k
  | cons b start ih =>
      obtain ⟨rest, rfl⟩ := h
      intro hlt
      rcases List.cons_lt_cons_iff.1 hlt with hhead | ⟨-, htail⟩
      · exact UInt8.lt_irrefl b hhead
      · exact ih (List.prefix_append start rest) htail

/-- A key between a beginning and a key that has it has it too. -/
theorem isPrefix_of_between {start k k' : Bytes} (hfrom : ¬ k < start) (hlt : k < k')
    (h : start <+: k') : start <+: k := by
  induction start generalizing k k' with
  | nil => exact List.nil_prefix
  | cons b start ih =>
      obtain ⟨rest, rfl⟩ := h
      cases k with
      | nil => exact absurd (List.nil_lt_cons b start) hfrom
      | cons a k =>
          -- The first byte can be neither below nor above that of the beginning.
          rcases List.cons_lt_cons_iff.1 hlt with hhead | ⟨rfl, htail⟩
          · exact absurd (List.cons_lt_cons_iff.2 (.inl hhead)) hfrom
          · have hfrom' : ¬ k < start := fun hk =>
              hfrom (List.cons_lt_cons_iff.2 (.inr ⟨rfl, hk⟩))
            exact List.cons_prefix_cons.2
              ⟨rfl, ih hfrom' htail (List.prefix_append start rest)⟩

/-- From a beginning on, the walk over it takes all entries that have it. -/
theorem takeWhile_eq_filter {start : Bytes} {es : List (Bytes × α)} (hes : Ascending es)
    (hfrom : ∀ e ∈ es, ¬ e.1 < start) :
    es.takeWhile (fun e => start.isPrefixOf e.1) = es.filter fun e => start.isPrefixOf e.1 := by
  induction es with
  | nil => rfl
  | cons e es ih =>
      obtain ⟨hfirst, hrest⟩ := List.pairwise_cons.1 hes
      by_cases hstart : start <+: e.1
      · have htest : start.isPrefixOf e.1 = true := List.isPrefixOf_iff_prefix.2 hstart
        simp only [List.takeWhile_cons, List.filter_cons, htest, if_true,
          ih hrest fun e' he' => hfrom e' (List.mem_cons_of_mem e he')]
      · have htest : ¬ start.isPrefixOf e.1 = true := fun h =>
          hstart (List.isPrefixOf_iff_prefix.1 h)
        simp only [List.takeWhile_cons, List.filter_cons, if_neg htest]
        refine (List.filter_eq_nil_iff.2 fun e' he' h => ?_).symm
        exact hstart (isPrefix_of_between (hfrom e List.mem_cons_self) (hfirst e' he')
          (List.isPrefixOf_iff_prefix.1 h))

/-- The walk over a beginning takes all entries that have it and no others. -/
theorem walk_eq_filter {start : Bytes} {es : List (Bytes × α)} (hes : Ascending es) :
    (es.dropWhile fun e => decide (e.1 < start)).takeWhile (fun e => start.isPrefixOf e.1)
      = es.filter fun e => start.isPrefixOf e.1 := by
  induction es with
  | nil => rfl
  | cons e es ih =>
      obtain ⟨hfirst, hrest⟩ := List.pairwise_cons.1 hes
      by_cases hlt : e.1 < start
      · have htest : ¬ start.isPrefixOf e.1 = true := fun h =>
          not_lt_of_isPrefix (List.isPrefixOf_iff_prefix.1 h) hlt
        simp only [List.dropWhile_cons, List.filter_cons, decide_eq_true hlt, if_true,
          if_neg htest, ih hrest]
      · simp only [List.dropWhile_cons, decide_eq_false hlt, if_neg Bool.false_ne_true]
        refine takeWhile_eq_filter hes fun e' he' hlt' => ?_
        rcases List.mem_cons.1 he' with rfl | he'
        · exact hlt hlt'
        · exact hlt (List.lt_trans (hfirst e' he') hlt')

/-- A restriction keeps the keys with the given beginning. -/
theorem restrict_eq_filterKeys (m : KeyMap α) (start : Bytes) :
    m.restrict start = m.filterKeys fun k => start.isPrefixOf k :=
  ext (walk_eq_filter m.ascending)

/-- A restriction finds what the map holds under keys with the given beginning. -/
theorem find?_restrict (m : KeyMap α) (start k : Bytes) :
    (m.restrict start).find? k = if start <+: k then m.find? k else none := by
  rw [restrict_eq_filterKeys, find?_filterKeys]
  simp only [List.isPrefixOf_iff_prefix]

end Backrun.KeyMap
