import Backrun.Proofs.Codec.Records
import Backrun.Proofs.Store.Views
import Backrun.Proofs.Verdict

/-!
# Queries and actions by what they come to

A query answers from the view alone.  An action is taken apart at its binds: it succeeds
if its parts succeed one after the other (`perform_bind_ok`).  Two properties say what
a failure may leave behind: a `Clean` action leaves the store as it was, and a
`Local` one writes to the innermost layer only, so that it is clean when it is
run atomically.
-/

namespace Backrun

variable {α β : Type}

/-! ## Queries -/

namespace Query

@[simp]
theorem pure_apply (a : α) (s : Store) : (pure a : Query α) s = .ok a := rfl

@[simp]
theorem throw_apply (e : Error) (s : Store) : (throw e : Query α) s = .error e := rfl

@[simp]
theorem lift_apply (r : Except Error α) (s : Store) : (liftM r : Query α) s = r := rfl

theorem bind_apply (q : Query α) (f : α → Query β) (s : Store) :
    (q >>= f) s = (q s).bind fun a => f a s := rfl

/-- A query succeeds if its parts do. -/
theorem bind_ok {q : Query α} {f : α → Query β} {s : Store} {b : β} :
    (q >>= f) s = .ok b ↔ ∃ a, q s = .ok a ∧ f a s = .ok b := by
  rw [bind_apply]
  cases q s with
  | error e => simp [Except.bind]
  | ok a => simp [Except.bind]

/-- A query fails with its first part, or behind it with the second one. -/
theorem bind_error {q : Query α} {f : α → Query β} {s : Store} {e : Error} :
    (q >>= f) s = .error e ↔ q s = .error e ∨ ∃ a, q s = .ok a ∧ f a s = .error e := by
  rw [bind_apply]
  cases q s with
  | error e' => simp [Except.bind]
  | ok a => simp [Except.bind]

/-- A query goes on behind a part that succeeds. -/
theorem bind_of_ok {q : Query α} {s : Store} {a : α} (h : q s = .ok a) (f : α → Query β) :
    (q >>= f) s = f a s := by
  rw [bind_apply, h]
  rfl

/-- Those outside are quoted as they answer. -/
theorem inspect_ok {i : Inspection α} {explain : Fault → Error} {s : Store} {a : α} :
    inspect i explain s = .ok a ↔ i s.get = .ok a := Verdict.mapError_ok

theorem inspect_error {i : Inspection α} {explain : Fault → Error} {s : Store} {e : Error} :
    inspect i explain s = .error e ↔ ∃ fault, i s.get = .error fault ∧ e = explain fault :=
  Verdict.mapError_error

section Records

variable [Codec α] {a : α} {k : Bytes} {s : Store}

/-- A record that can be read back is found where it was put. -/
theorem find_of_get (ha : Codec.Faithful a) (h : s.get k = some (Codec.encode a)) :
    find k s = .ok (some a) := by
  simp [find, h, read, Codec.decode?_encode ha, Except.map]

theorem find_of_get_none (h : s.get k = none) : find (α := α) k s = .ok none := by
  simp [find, h]

theorem load_of_get (ha : Codec.Faithful a) (h : s.get k = some (Codec.encode a))
    (missing : Missing) : load k missing s = .ok a := by
  rw [load, bind_of_ok (find_of_get ha h)]
  rfl

theorem load_of_get_none (h : s.get k = none) (missing : Missing) :
    load (α := α) k missing s = .error (.notFound missing) := by
  rw [load, bind_of_ok (find_of_get_none h)]
  rfl

theorem load_of_undecodable {b : Bytes} (h : s.get k = some b)
    (hdecode : (Codec.decode? b : Option α) = none) (missing : Missing) :
    load (α := α) k missing s = .error .codec := by
  have hfind : find (α := α) k s = .error .codec := by
    simp [find, h, read, hdecode, Except.map]
  rw [load, bind_apply, hfind]
  rfl

/-- What is loaded depends on the bytes under its key only. -/
theorem load_congr {t : Store} (h : t.get k = s.get k) (missing : Missing) :
    load (α := α) k missing t = load k missing s := by
  have hfind : find (α := α) k t = find k s := by rw [find, find, h]
  rw [load, bind_apply, bind_apply, hfind]
  rcases find (α := α) k s with e | _ | a <;> rfl

/-- A loaded record is what the bytes under its key stand for. -/
theorem load_ok {missing : Missing} :
    load k missing s = .ok a ↔ ∃ b, s.get k = some b ∧ Codec.decode? b = some a := by
  rw [load, bind_ok, find]
  cases s.get k with
  | none => simp
  | some b =>
      cases hread : (Codec.decode? b : Option α) with
      | none => simp [read, hread, Except.map]
      | some a' => simp [read, hread, Except.map]

/-- A record that cannot be read is all that a lookup fails for. -/
theorem find_error {e : Error} (h : find (α := α) k s = .error e) : e = .codec := by
  rw [find] at h
  split at h
  · rename_i bytes _
    rw [read] at h
    cases hdecode : (Codec.decode? bytes : Option α) with
    | some a =>
        rw [hdecode] at h
        cases h
    | none =>
        rw [hdecode] at h
        cases h
        rfl
  · cases h

theorem load_error {missing : Missing} {e : Error} (h : load (α := α) k missing s = .error e) :
    e = .codec ∨ e = .notFound missing := by
  rcases bind_error.1 h with hfind | ⟨found, -, h⟩
  · exact .inl (find_error hfind)
  · cases found with
    | some a => cases h
    | none =>
        cases h
        exact .inr rfl

/-- If all values under a beginning can be read, the records there are what they stand for. -/
theorem loadAll_of_under {start : Bytes} {as : List α}
    (hfaithful : ∀ a ∈ as, Codec.Faithful a)
    (h : (s.under start).entries.map Prod.snd = as.map Codec.encode) :
    loadAll start s = .ok as := by
  rw [loadAll]
  generalize (s.under start).entries = es at h
  induction es generalizing as with
  | nil =>
      cases as with
      | nil => rfl
      | cons a as => exact absurd h (by simp)
  | cons e es ih =>
      cases as with
      | nil => exact absurd h (by simp)
      | cons a as =>
          obtain ⟨hhead, htail⟩ := List.cons.inj h
          have hread : (read e.2 : Except Error α) = .ok a := by
            simp [read, hhead, Codec.decode?_encode (hfaithful a List.mem_cons_self)]
          rw [List.mapM_cons, hread,
            ih (fun a' ha' => hfaithful a' (List.mem_cons_of_mem a ha')) htail]
          rfl

end Records

end Query

/-! ## Actions -/

namespace Action

variable {s t : Store} {a : Action α} {f : α → Action β}

@[simp]
theorem perform_liftQuery (q : Query α) (s : Store) :
    (liftM q : Action α).perform s = (q s, s) := rfl

@[simp]
theorem perform_liftVerdict (r : Except Error α) (s : Store) :
    (liftM r : Action α).perform s = (r, s) := rfl

@[simp]
theorem perform_save [Codec α] (k : Bytes) (x : α) (s : Store) :
    (save k x).perform s = (.ok (), s.set k (Codec.encode x)) := rfl

@[simp]
theorem perform_delete (k : Bytes) (s : Store) : (delete k).perform s = (.ok (), s.delete k) := rfl

@[simp]
theorem perform_deleteUnder (start : Bytes) (s : Store) :
    (deleteUnder start).perform s = (.ok (), s.deleteUnder start) := rfl

theorem perform_call (effect : Effect α) (explain : Fault → Error) (s : Store) :
    (call effect explain).perform s
      = ((effect s.get).1.mapError explain, s.writeAll (effect s.get).2) := rfl

/-- A call succeeds if those outside do, with what they have written. -/
theorem perform_call_ok {effect : Effect α} {explain : Fault → Error} {x : α} :
    (call effect explain).perform s = (.ok x, t)
      ↔ (effect s.get).1 = .ok x ∧ t = s.writeAll (effect s.get).2 := by
  rw [perform_call, Prod.mk.injEq, Verdict.mapError_ok]
  exact and_congr_right fun _ => eq_comm

/-- A call fails if those outside refuse, and what they have written stays. -/
theorem perform_call_error {effect : Effect α} {explain : Fault → Error} {e : Error} :
    (call effect explain).perform s = (.error e, t)
      ↔ ∃ fault, (effect s.get).1 = .error fault ∧ e = explain fault
        ∧ t = s.writeAll (effect s.get).2 := by
  rw [perform_call, Prod.mk.injEq, Verdict.mapError_error]
  constructor
  · rintro ⟨⟨fault, hfault, he⟩, ht⟩
    exact ⟨fault, hfault, he, ht.symm⟩
  · rintro ⟨fault, hfault, he, ht⟩
    exact ⟨⟨fault, hfault, he⟩, ht.symm⟩

theorem perform_call_of_ok {effect : Effect α} {x : α} {writes : List Write}
    (h : effect s.get = (.ok x, writes)) (explain : Fault → Error) :
    (call effect explain).perform s = (.ok x, s.writeAll writes) := by
  rw [perform_call, h]
  rfl

theorem perform_call_of_error {effect : Effect α} {fault : Fault} {writes : List Write}
    (h : effect s.get = (.error fault, writes)) (explain : Fault → Error) :
    (call effect explain).perform s = (.error (explain fault), s.writeAll writes) := by
  rw [perform_call, h]
  rfl

/-- An action succeeds if its parts succeed one after the other. -/
theorem perform_bind_ok {y : β} :
    (a >>= f).perform s = (.ok y, t)
      ↔ ∃ x u, a.perform s = (.ok x, u) ∧ (f x).perform u = (.ok y, t) := by
  rw [perform_bind]
  rcases a.perform s with ⟨e | x, u⟩
  · simp
  · constructor
    · exact fun h => ⟨x, u, rfl, h⟩
    · rintro ⟨x', u', heq, h⟩
      cases heq
      exact h

/-- An action fails if its first part does, or the second one on what the first one left. -/
theorem perform_bind_error {e : Error} :
    (a >>= f).perform s = (.error e, t)
      ↔ a.perform s = (.error e, t)
        ∨ ∃ x u, a.perform s = (.ok x, u) ∧ (f x).perform u = (.error e, t) := by
  rw [perform_bind]
  rcases a.perform s with ⟨e' | x, u⟩
  · simp
  · constructor
    · exact fun h => .inr ⟨x, u, rfl, h⟩
    · rintro (heq | ⟨x', u', heq, h⟩)
      · exact absurd heq (by simp)
      · cases heq
        exact h

theorem perform_bind_of_ok {x : α} {u : Store} (h : a.perform s = (.ok x, u)) (f : α → Action β) :
    (a >>= f).perform s = (f x).perform u := by rw [perform_bind, h]

theorem perform_bind_of_error {e : Error} (h : a.perform s = (.error e, t)) (f : α → Action β) :
    (a >>= f).perform s = (.error e, t) := by rw [perform_bind, h]

/-- Behind a query an action goes on with the answer on the same store. -/
theorem perform_query_bind_ok {q : Query α} {y : β} :
    ((liftM q : Action α) >>= f).perform s = (.ok y, t)
      ↔ ∃ x, q s = .ok x ∧ (f x).perform s = (.ok y, t) := by
  rw [perform_bind, perform_liftQuery]
  cases q s <;> simp

/-- Behind a verdict an action goes on with the store that was judged. -/
theorem perform_verdict_bind_ok {r : Except Error α} {y : β} :
    ((liftM r : Action α) >>= f).perform s = (.ok y, t)
      ↔ ∃ x, r = .ok x ∧ (f x).perform s = (.ok y, t) := by
  rw [perform_bind, perform_liftVerdict]
  cases r <;> simp

theorem perform_query_bind_of_ok {q : Query α} {x : α} (h : q s = .ok x) (f : α → Action β) :
    ((liftM q : Action α) >>= f).perform s = (f x).perform s := by
  rw [perform_bind, perform_liftQuery, h]

/-! ## Failures that leave the store as it was -/

/-- An action that never fails. -/
def Total (a : Action α) : Prop := ∀ s, ∃ x t, a.perform s = (.ok x, t)

theorem Total.pure (x : α) : Total (Pure.pure x : Action α) := fun s => ⟨x, s, rfl⟩

theorem Total.update (g : Store → Store) : Total (Action.update g) := fun s => ⟨(), g s, rfl⟩

theorem Total.bind (ha : Total a) (hf : ∀ x, Total (f x)) : Total (a >>= f) := by
  intro s
  obtain ⟨x, t, hx⟩ := ha s
  obtain ⟨y, u, hy⟩ := hf x t
  exact ⟨y, u, perform_bind_ok.2 ⟨x, t, hx, hy⟩⟩

theorem Total.forM {xs : List β} {g : β → Action PUnit} (hg : ∀ x, Total (g x)) :
    Total (xs.forM g) := by
  induction xs with
  | nil => exact Total.pure PUnit.unit
  | cons x xs ih => exact Total.bind (hg x) fun _ => ih

/-- An action that leaves the store as it was when it fails. -/
def Clean (a : Action α) : Prop := ∀ ⦃s t : Store⦄ ⦃e : Error⦄, a.perform s = (.error e, t) → t = s

theorem Total.clean (ha : Total a) : Clean a := by
  intro s t e h
  obtain ⟨x, u, hx⟩ := ha s
  rw [hx] at h
  exact absurd (congrArg Prod.fst h) (by simp)

theorem Clean.throw (e : Error) : Clean (MonadExcept.throw e : Action α) := by
  intro s t e' h
  exact (congrArg Prod.snd h).symm

theorem Clean.throw_bind (e : Error) (f : α → Action β) :
    Clean ((MonadExcept.throw e : Action α) >>= f) := by
  intro s t e' h
  rw [perform_bind_of_error (perform_throw e s)] at h
  exact (congrArg Prod.snd h).symm

theorem Clean.query (q : Query α) : Clean (liftM q : Action α) := by
  intro s t e h
  exact (congrArg Prod.snd h).symm

theorem Clean.verdict (r : Except Error α) : Clean (liftM r : Action α) := by
  intro s t e h
  exact (congrArg Prod.snd h).symm

/-- What only answers may come before what fails cleanly. -/
theorem Clean.answer_bind (ha : ∀ s, (a.perform s).2 = s) (hf : ∀ x, Clean (f x)) :
    Clean (a >>= f) := by
  intro s t e h
  have hsame := ha s
  rw [perform_bind] at h
  rcases hanswer : a.perform s with ⟨e' | x, u⟩
  · rw [hanswer] at h hsame
    exact (congrArg Prod.snd h).symm.trans hsame
  · rw [hanswer] at h hsame
    obtain rfl : u = s := hsame
    exact hf x h

theorem Clean.query_bind {q : Query α} (hf : ∀ x, Clean (f x)) :
    Clean ((liftM q : Action α) >>= f) := Clean.answer_bind (fun _ => rfl) hf

theorem Clean.verdict_bind {r : Except Error α} (hf : ∀ x, Clean (f x)) :
    Clean ((liftM r : Action α) >>= f) := Clean.answer_bind (fun _ => rfl) hf

/-- What cannot fail may follow what fails cleanly. -/
theorem Clean.bind_total (ha : Clean a) (hf : ∀ x, Total (f x)) : Clean (a >>= f) := by
  intro s t e h
  rcases perform_bind_error.1 h with h | ⟨x, u, -, h⟩
  · exact ha h
  · obtain ⟨y, v, hy⟩ := hf x u
    rw [hy] at h
    exact absurd (congrArg Prod.fst h) (by simp)

/-! ## Failures of one sort -/

section Failures

variable {P : Error → Prop}

/-- An action whose failures are all of one sort, whatever the store. -/
def FailsWith (P : Error → Prop) (a : Action α) : Prop :=
  ∀ ⦃s t : Store⦄ ⦃e : Error⦄, a.perform s = (.error e, t) → P e

theorem FailsWith.throw {e : Error} (h : P e) :
    FailsWith P (MonadExcept.throw e : Action α) := by
  intro s t e' heq
  cases congrArg Prod.fst heq
  exact h

theorem FailsWith.total (h : a.Total) : FailsWith P a := by
  intro s t e heq
  obtain ⟨x, u, hx⟩ := h s
  cases congrArg Prod.fst (hx.symm.trans heq)

theorem FailsWith.query {q : Query α} (h : ∀ ⦃s e⦄, q s = .error e → P e) :
    FailsWith P (liftM q : Action α) := fun _ _ _ heq => h (congrArg Prod.fst heq)

theorem FailsWith.call {effect : Effect α} {explain : Fault → Error}
    (h : ∀ fault, P (explain fault)) : FailsWith P (Action.call effect explain) := by
  intro s t e heq
  obtain ⟨fault, -, rfl, -⟩ := perform_call_error.1 heq
  exact h fault

theorem FailsWith.bind (ha : FailsWith P a) (hf : ∀ x, FailsWith P (f x)) :
    FailsWith P (a >>= f) := by
  intro s t e heq
  rcases perform_bind_error.1 heq with hfirst | ⟨x, u, -, hrest⟩
  · exact ha hfirst
  · exact hf x hrest

end Failures

/-! ## Writing to the innermost layer only -/

/-- An action that changes no layer under the innermost one. -/
def Local (a : Action α) : Prop :=
  ∀ ⦃s t : Store⦄, Store.OneAbove s t → Store.OneAbove s (a.perform t).2

theorem Local.pure (x : α) : Local (Pure.pure x : Action α) := fun _ _ h => h

theorem Local.throw (e : Error) : Local (MonadExcept.throw e : Action α) := fun _ _ h => h

theorem Local.query (q : Query α) : Local (liftM q : Action α) := fun _ _ h => h

theorem Local.verdict (r : Except Error α) : Local (liftM r : Action α) := fun _ _ h => h

theorem Local.save [Codec α] (k : Bytes) (x : α) : Local (Action.save k x) :=
  fun _ _ h => h.write k (some (Codec.encode x))

theorem Local.deleteUnder (start : Bytes) : Local (Action.deleteUnder start) :=
  fun _ _ h => h.deleteUnder start

theorem Local.call (effect : Effect α) (explain : Fault → Error) :
    Local (Action.call effect explain) := fun _ _ h => h.writeAll _

theorem Local.bind (ha : Local a) (hf : ∀ x, Local (f x)) : Local (a >>= f) := by
  intro s t h
  have hfirst := ha h
  rw [perform_bind]
  rcases heq : a.perform t with ⟨e | x, u⟩
  · rw [heq] at hfirst
    exact hfirst
  · rw [heq] at hfirst
    exact hf x hfirst

theorem Local.forM {xs : List β} {g : β → Action PUnit} (hg : ∀ x, Local (g x)) :
    Local (xs.forM g) := by
  induction xs with
  | nil => exact Local.pure PUnit.unit
  | cons x xs ih => exact Local.bind (hg x) fun _ => ih

/-! ## Stores without branches -/

/-- An action that opens no branch where there is none. -/
def StaysFlat (a : Action α) : Prop := ∀ s, s.branches = [] → (a.perform s).2.branches = []

theorem StaysFlat.pure (x : α) : StaysFlat (Pure.pure x : Action α) := fun _ h => h

theorem StaysFlat.throw (e : Error) : StaysFlat (MonadExcept.throw e : Action α) := fun _ h => h

theorem StaysFlat.verdict (r : Except Error α) : StaysFlat (liftM r : Action α) := fun _ h => h

theorem StaysFlat.write (k : Bytes) (value : Option Bytes) :
    StaysFlat (Action.update fun s => s.write k value) := by
  rintro ⟨root, branches⟩ (rfl : branches = [])
  cases value <;> rfl

theorem StaysFlat.save [Codec α] (k : Bytes) (x : α) : StaysFlat (Action.save k x) :=
  StaysFlat.write k (some (Codec.encode x))

theorem StaysFlat.delete (k : Bytes) : StaysFlat (Action.delete k) := StaysFlat.write k none

theorem StaysFlat.deleteUnder (start : Bytes) : StaysFlat (Action.deleteUnder start) := by
  intro s h
  rw [perform_deleteUnder, Store.deleteUnder]
  generalize (s.under start).entries = es
  induction es generalizing s with
  | nil => exact h
  | cons e es ih => exact ih _ (StaysFlat.delete e.1 s h)

theorem StaysFlat.bind (ha : StaysFlat a) (hf : ∀ x, StaysFlat (f x)) : StaysFlat (a >>= f) := by
  intro s h
  have hfirst := ha s h
  rw [perform_bind]
  rcases heq : a.perform s with ⟨e | x, u⟩
  · rw [heq] at hfirst
    exact hfirst
  · rw [heq] at hfirst
    exact hf x u hfirst

theorem StaysFlat.forM {xs : List β} {g : β → Action PUnit} (hg : ∀ x, StaysFlat (g x)) :
    StaysFlat (xs.forM g) := by
  induction xs with
  | nil => exact StaysFlat.pure PUnit.unit
  | cons x xs ih => exact StaysFlat.bind (hg x) fun _ => ih

/-! ## Atomic actions -/

theorem perform_atomically (a : Action α) (s : Store) :
    a.atomically.perform s =
      match a.perform s.openBranch with
      | (.ok x, t) => (.ok x, t.commit)
      | (.error e, t) => (.error e, t.discard) := rfl

/-- An atomic run that fails leaves the store itself. -/
theorem Local.clean_atomically (ha : Local a) : Clean a.atomically := by
  intro s t e h
  have habove := ha (Store.oneAbove_openBranch s)
  rw [perform_atomically] at h
  rcases heq : a.perform s.openBranch with ⟨e' | x, u⟩
  -- The branch is the only layer that has changed, and the failure forgets it.
  · rw [heq] at h habove
    have hleft : u.discard = t := congrArg Prod.snd h
    rw [← hleft]
    exact habove.discard_eq
  · rw [heq] at h
    exact absurd (congrArg Prod.fst h) (by simp)

/-- An atomic run succeeds if the action does in a branch, and then holds what that held. -/
theorem perform_atomically_ok {x : α} :
    a.atomically.perform s = (.ok x, t)
      ↔ ∃ u, a.perform s.openBranch = (.ok x, u) ∧ t = u.commit := by
  rw [perform_atomically]
  rcases a.perform s.openBranch with ⟨e | y, u⟩
  · simp
  · simp only [Prod.mk.injEq, Except.ok.injEq]
    constructor
    · rintro ⟨rfl, rfl⟩
      exact ⟨u, ⟨rfl, rfl⟩, rfl⟩
    · rintro ⟨u', ⟨rfl, rfl⟩, rfl⟩
      exact ⟨rfl, rfl⟩

end Action

end Backrun
