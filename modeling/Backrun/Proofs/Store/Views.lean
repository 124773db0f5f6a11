import Backrun.Market.Effect
import Backrun.Proofs.Store.KeyMap

/-!
# Stores by their views

What a store holds is the view of it: the value under each key.  Every operation of
the store is described here by what it does to the view, so that nothing further
on has to look into branches.  A branch on top of a store changes no lower layer
(`OneAbove`), which is why discarding it restores the store itself.
-/

namespace Backrun

namespace View

/-- A view after writes in order. -/
def afterAll (v : View) (writes : List Write) : View := writes.foldl View.after v

@[simp]
theorem afterAll_nil (v : View) : v.afterAll [] = v := rfl

@[simp]
theorem afterAll_cons (v : View) (w : Write) (writes : List Write) :
    v.afterAll (w :: writes) = (v.after w).afterAll writes := rfl

/-- A key that no write names keeps its value. -/
theorem afterAll_of_untouched {writes : List Write} {k : Bytes} (v : View)
    (h : ∀ w ∈ writes, w.key ≠ k) : v.afterAll writes k = v k := by
  induction writes generalizing v with
  | nil => rfl
  | cons w rest ih =>
      rw [afterAll_cons, ih (v.after w) fun w' hw' => h w' (List.mem_cons_of_mem w hw')]
      exact if_neg fun heq => h w List.mem_cons_self heq.symm

end View

/-- A fold of changes, each of which sets one key, over entries with ascending keys: every
key among them has its new value and every other one keeps what it had. -/
theorem look_foldl {σ α : Type} (look : σ → Bytes → α) (change : σ → Bytes × α → σ)
    (hchange : ∀ t e k, look (change t e) k = if k = e.1 then e.2 else look t k)
    {es : List (Bytes × α)} (hes : Ascending es) (t : σ) (k : Bytes) :
    look (es.foldl change t) k = ((es.find? fun e => e.1 == k).map Prod.snd).getD (look t k) := by
  induction es generalizing t with
  | nil => rfl
  | cons e es ih =>
      obtain ⟨hfirst, hrest⟩ := List.pairwise_cons.1 hes
      rw [List.foldl_cons, ih hrest, hchange]
      by_cases hkey : e.1 = k
      -- The keys ascend, so that no later entry changes this one again.
      · have hnone : (es.find? fun e => e.1 == k) = none := by
          rw [List.find?_eq_none]
          intro e' he' heq
          have hlt := hfirst e' he'
          rw [hkey, eq_of_beq heq] at hlt
          exact List.lt_irrefl k hlt
        simp [hkey, hnone]
      · simp [hkey, Ne.symm hkey]

/-- Pending writes decide the keys that they name. -/
theorem Pending.find?_applyTo (pending : Pending) (below : KeyMap Bytes) (k : Bytes) :
    (pending.applyTo below).find? k = (pending.find? k).getD (below.find? k) := by
  refine look_foldl KeyMap.find? _ (fun m e k' => ?_) pending.ascending below k
  obtain ⟨key, value⟩ := e
  cases value with
  | none => exact KeyMap.find?_erase m key k'
  | some v => exact KeyMap.find?_insert m key k' v

namespace Store

variable {s t : Store}

/-! ## Reading -/

@[simp]
theorem get_empty (k : Bytes) : empty.get k = none := rfl

@[simp]
theorem get_openBranch (s : Store) (k : Bytes) : s.openBranch.get k = s.get k := rfl

/-- A walk finds what the store holds under keys with the given beginning. -/
theorem find?_under (s : Store) (start k : Bytes) :
    (s.under start).find? k = if start <+: k then s.get k else none := by
  obtain ⟨root, branches⟩ := s
  -- Each branch is laid over the walk of the layers under it.
  induction branches with
  | nil => exact KeyMap.find?_restrict root start k
  | cons pending rest ih =>
      have hunder : (Store.under ⟨root, pending :: rest⟩ start)
          = Pending.applyTo (pending.restrict start) (Store.under ⟨root, rest⟩ start) := rfl
      rw [hunder, Pending.find?_applyTo, KeyMap.find?_restrict, ih]
      by_cases hstart : start <+: k
      · simp only [if_pos hstart, get, List.findSome?_cons]
        cases pending.find? k <;> rfl
      · simp only [if_neg hstart, Option.getD_none]

theorem mem_under {start k b : Bytes} :
    (k, b) ∈ (s.under start).entries ↔ start <+: k ∧ s.get k = some b := by
  rw [KeyMap.mem_entries_iff, find?_under]
  by_cases h : start <+: k <;> simp [h]

/-- Stores that agree on the keys with a beginning hold the same entries there. -/
theorem under_congr {start : Bytes} (h : ∀ k, start <+: k → s.get k = t.get k) :
    s.under start = t.under start := by
  refine KeyMap.ext_find? fun k => ?_
  rw [find?_under, find?_under]
  by_cases hstart : start <+: k
  · rw [if_pos hstart, if_pos hstart, h k hstart]
  · rw [if_neg hstart, if_neg hstart]

/-! ## Writing -/

theorem get_write (s : Store) (k k' : Bytes) (value : Option Bytes) :
    (s.write k value).get k' = if k' = k then value else s.get k' := by
  obtain ⟨root, branches⟩ := s
  cases branches with
  | nil =>
      cases value with
      | none => exact KeyMap.find?_erase root k k'
      | some v => exact KeyMap.find?_insert root k k' v
  | cons pending rest =>
      simp only [write, get, List.findSome?_cons, KeyMap.find?_insert]
      by_cases hkey : k' = k
      · simp [hkey]
      · simp [hkey]

theorem get_set (s : Store) (k k' v : Bytes) :
    (s.set k v).get k' = if k' = k then some v else s.get k' := get_write s k k' (some v)

theorem get_delete (s : Store) (k k' : Bytes) :
    (s.delete k).get k' = if k' = k then none else s.get k' := get_write s k k' none

@[simp]
theorem get_set_self (s : Store) (k v : Bytes) : (s.set k v).get k = some v := by
  rw [get_set, if_pos rfl]

theorem get_set_of_ne {k k' : Bytes} (s : Store) (v : Bytes) (h : k' ≠ k) :
    (s.set k v).get k' = s.get k' := by rw [get_set, if_neg h]

/-- Writes in order do to the store what they do to its view. -/
theorem get_writeAll (s : Store) (writes : List Write) :
    (s.writeAll writes).get = View.afterAll s.get writes := by
  induction writes generalizing s with
  | nil => rfl
  | cons w rest ih =>
      have hwrite : (s.write w.key w.value).get = View.after s.get w :=
        funext fun k => get_write s w.key k w.value
      calc (s.writeAll (w :: rest)).get
          = ((s.write w.key w.value).writeAll rest).get := rfl
        _ = View.afterAll (s.write w.key w.value).get rest := ih _
        _ = View.afterAll s.get (w :: rest) := by rw [hwrite, View.afterAll_cons]

theorem get_foldl_delete (es : List (Bytes × Bytes)) (s : Store) (k : Bytes) :
    (es.foldl (fun t e => t.delete e.1) s).get k
      = if k ∈ es.map Prod.fst then none else s.get k := by
  induction es generalizing s with
  | nil => rfl
  | cons e es ih =>
      rw [List.foldl_cons, ih, get_delete, List.map_cons]
      by_cases hrest : k ∈ es.map Prod.fst
      · rw [if_pos hrest, if_pos (List.mem_cons_of_mem e.1 hrest)]
      · rw [if_neg hrest]
        by_cases hkey : k = e.1
        · rw [if_pos hkey, if_pos (List.mem_cons.2 (.inl hkey))]
        · rw [if_neg hkey, if_neg]
          exact fun hmem => (List.mem_cons.1 hmem).elim hkey hrest

/-- A removal by beginning takes those keys and no others. -/
theorem get_deleteUnder (s : Store) (start k : Bytes) :
    (s.deleteUnder start).get k = if start <+: k then none else s.get k := by
  rw [deleteUnder, get_foldl_delete]
  by_cases hstart : start <+: k
  · rw [if_pos hstart]
    cases hget : s.get k with
    | none => split <;> rfl
    | some b => exact if_pos (List.mem_map.2 ⟨(k, b), mem_under.2 ⟨hstart, hget⟩, rfl⟩)
  · rw [if_neg hstart, if_neg]
    intro hmem
    obtain ⟨⟨key, b⟩, he, rfl⟩ := List.mem_map.1 hmem
    exact hstart (mem_under.1 he).1

/-! ## Branches -/

/-- A commit changes no value. -/
@[simp]
theorem get_commit (s : Store) (k : Bytes) : s.commit.get k = s.get k := by
  obtain ⟨root, branches⟩ := s
  cases branches with
  | nil => rfl
  | cons pending rest =>
      have hfold := look_foldl Store.get (fun t e => t.write e.1 e.2)
        (fun t e k' => get_write t e.1 k' e.2) pending.ascending ⟨root, rest⟩ k
      rw [commit, hfold]
      simp only [get, List.findSome?_cons, KeyMap.find?]
      cases (pending.entries.find? fun e => e.1 == k).map Prod.snd <;> rfl

/-- Stores without branches that hold the same are the same. -/
theorem eq_of_flat (hs : s.branches = []) (ht : t.branches = [])
    (h : ∀ k, s.get k = t.get k) : s = t := by
  obtain ⟨root, branches⟩ := s
  obtain ⟨root', branches'⟩ := t
  obtain rfl : branches = [] := hs
  obtain rfl : branches' = [] := ht
  obtain rfl : root = root' := KeyMap.ext_find? h
  rfl

/-- The second store is the first one under one more branch. -/
def OneAbove (s t : Store) : Prop := ∃ pending, t = { s with branches := pending :: s.branches }

theorem oneAbove_openBranch (s : Store) : OneAbove s s.openBranch := ⟨.empty, rfl⟩

/-- Forgetting the branch on top leaves the store under it. -/
theorem OneAbove.discard_eq (h : OneAbove s t) : t.discard = s := by
  obtain ⟨pending, rfl⟩ := h
  rfl

theorem OneAbove.write (h : OneAbove s t) (k : Bytes) (value : Option Bytes) :
    OneAbove s (t.write k value) := by
  obtain ⟨pending, rfl⟩ := h
  exact ⟨pending.insert k value, rfl⟩

theorem OneAbove.writeAll (h : OneAbove s t) (writes : List Write) :
    OneAbove s (t.writeAll writes) := by
  induction writes generalizing t with
  | nil => exact h
  | cons w rest ih => exact ih (h.write w.key w.value)

theorem OneAbove.deleteUnder (h : OneAbove s t) (start : Bytes) :
    OneAbove s (t.deleteUnder start) := by
  rw [Store.deleteUnder]
  generalize (t.under start).entries = es
  induction es generalizing t with
  | nil => exact h
  | cons e es ih => exact ih (h.write e.1 none)

end Store

end Backrun
