import Backrun.Proofs.Store.Actions
import Backrun.Proofs.Store.Order

/-!
# Kinds of records in a view

`Filed` says of one kind of keys that every value there is a record under its own key, as it
would be written.  Such a kind can be listed, and the list says everything that the store holds
of it.  `Keyed` leaves open how the records are written, and `Legible` only says that the values
can be read.
-/

namespace Backrun

variable {α : Type} [Codec α] {v w : View} {kind : UInt8} {key : α → Bytes} {good : α → Prop}

/-- The values of a kind are records that satisfy a condition, each under its own key. -/
def Filed (v : View) (kind : UInt8) (key : α → Bytes) (good : α → Prop) : Prop :=
  ∀ k b, Key.kind k = some kind → v k = some b →
    ∃ a, k = key a ∧ b = Codec.encode a ∧ good a

namespace Filed

/-- What is new under a kind has to be in order; the rest may stay or go. -/
theorem update (h : Filed v kind key good)
    (hnew : ∀ k b, Key.kind k = some kind → w k = some b →
      v k = some b ∨ ∃ a, k = key a ∧ b = Codec.encode a ∧ good a) : Filed w kind key good := by
  intro k b hkind hb
  rcases hnew k b hkind hb with hold | hrecord
  · exact h k b hkind hold
  · exact hrecord

/-- A kind depends on its own keys only. -/
theorem congr (h : Filed v kind key good) (heq : ∀ k, Key.kind k = some kind → w k = v k) :
    Filed w kind key good :=
  h.update fun k _ hkind hb => .inl ((heq k hkind).symm.trans hb)

/-- A record that satisfies the condition may take the place of the one under its key. -/
theorem put (h : Filed v kind key good) {a : α} (hgood : good a)
    (hput : w (key a) = some (Codec.encode a))
    (hframe : ∀ k, Key.kind k = some kind → k ≠ key a → w k = v k) : Filed w kind key good := by
  refine h.update fun k b hkind hb => ?_
  by_cases hkey : k = key a
  · refine .inr ⟨a, hkey, ?_, hgood⟩
    rw [hkey, hput] at hb
    exact (Option.some.inj hb).symm
  · exact .inl ((hframe k hkind hkey).symm.trans hb)

end Filed

/-! ## Kinds that can be read -/

/-- The values of a kind are records of a type, under whatever keys. -/
def Legible (α : Type) [Codec α] (v : View) (kind : UInt8) : Prop :=
  ∀ k b, Key.kind k = some kind → v k = some b → ∃ a : α, Codec.decode? b = some a

theorem Filed.legible (h : Filed v kind key good) (hfaithful : ∀ a : α, Codec.Faithful a) :
    Legible α v kind := by
  intro k b hkind hb
  obtain ⟨a, -, rfl, -⟩ := h k b hkind hb
  exact ⟨a, Codec.decode?_encode (hfaithful a)⟩

/-- A kind whose only record is known can be read. -/
theorem legible_of_only {k : Bytes} {a : α} (ha : Codec.Faithful a)
    (h : v k = some (Codec.encode a))
    (honly : ∀ k' b, Key.kind k' = some kind → v k' = some b → k' = k) : Legible α v kind := by
  intro k' b hkind hb
  rw [honly k' b hkind hb, h] at hb
  exact ⟨a, by rw [← Option.some.inj hb, Codec.decode?_encode ha]⟩

namespace Legible

variable {s : Store}

/-- What can be read depends on the keys of the kind only. -/
theorem congr (h : Legible α v kind) (heq : ∀ k, Key.kind k = some kind → w k = v k) :
    Legible α w kind :=
  fun k b hkind hb => h k b hkind ((heq k hkind).symm.trans hb)

theorem empty (α : Type) [Codec α] (kind : UInt8) : Legible α Store.empty.get kind := nofun

/-- A value may be put under a key if it can be read or the key is of another kind. -/
theorem set (h : Legible α s.get kind) {k b : Bytes}
    (hb : Key.kind k = some kind → ∃ a : α, Codec.decode? b = some a) :
    Legible α (s.set k b).get kind := by
  intro k' b' hkind hb'
  rw [Store.get_set] at hb'
  split at hb'
  · rename_i heq
    rw [← Option.some.inj hb']
    exact hb (heq ▸ hkind)
  · exact h k' b' hkind hb'

/-- The list of a kind has what its entries stand for, in the order of the keys. -/
theorem loadAll_eq (h : Legible α s.get kind) :
    Query.loadAll [kind] s
      = .ok ((s.under [kind]).entries.filterMap fun e => Codec.decode? (α := α) e.2) := by
  have hentries : ∀ e ∈ (s.under [kind]).entries, ∃ a : α, Codec.decode? e.2 = some a := by
    intro e he
    obtain ⟨hstart, hget⟩ := Store.mem_under.1 he
    exact h e.1 e.2 (Key.singleton_prefix_iff.1 hstart) hget
  rw [Query.loadAll]
  generalize (s.under [kind]).entries = es at hentries
  induction es with
  | nil => rfl
  | cons e es ih =>
      obtain ⟨a, ha⟩ := hentries e List.mem_cons_self
      have hread : (Query.read e.2 : Except Error α) = .ok a := by rw [Query.read, ha]
      have hrest := ih fun e' he' => hentries e' (List.mem_cons_of_mem e he')
      rw [List.mapM_cons, hread, hrest, List.filterMap_cons, ha]
      rfl

theorem loadAll (h : Legible α s.get kind) : ∃ as : List α, Query.loadAll [kind] s = .ok as :=
  ⟨_, h.loadAll_eq⟩

/-- A search under a key finds what the bytes there stand for. -/
theorem find_eq (h : Legible α s.get kind) {k : Bytes} (hk : Key.kind k = some kind) :
    Query.find k s = .ok ((s.get k).bind (Codec.decode? (α := α))) := by
  rw [Query.find]
  cases hget : s.get k with
  | none => rfl
  | some b =>
      obtain ⟨a, ha⟩ := h k b hk hget
      simp [Query.read, ha, Except.map]

/-- A look-up finds what the bytes under the key stand for, or that there are none. -/
theorem unlessMissing_load (h : Legible α s.get kind) {k : Bytes} (hk : Key.kind k = some kind)
    (missing : Missing) :
    Query.unlessMissing (Query.load (α := α) k missing) s
      = .ok ((s.get k).bind Codec.decode?) := by
  rw [Query.unlessMissing]
  cases hget : s.get k with
  | none => rw [Query.load_of_get_none hget]; rfl
  | some b =>
      obtain ⟨a, ha⟩ := h k b hk hget
      rw [Query.load_ok.2 ⟨b, hget, ha⟩]
      exact congrArg Except.ok ha.symm

end Legible

/-! ## Kinds that can be read under their own keys -/

/-- The values of a kind are records of a type, each under its own key. They need not be as they
would be written. -/
def Keyed (v : View) (kind : UInt8) (key : α → Bytes) : Prop :=
  ∀ k b, Key.kind k = some kind → v k = some b → ∃ a : α, k = key a ∧ Codec.decode? b = some a

theorem Filed.keyed (h : Filed v kind key good) (hfaithful : ∀ a : α, Codec.Faithful a) :
    Keyed v kind key := by
  intro k b hkind hb
  obtain ⟨a, hkey, rfl, -⟩ := h k b hkind hb
  exact ⟨a, hkey, Codec.decode?_encode (hfaithful a)⟩

namespace Keyed

variable {s : Store}

theorem empty (kind : UInt8) (key : α → Bytes) : Keyed Store.empty.get kind key := nofun

/-- A value may be put under a key if it stands for a record of that key or the key is of another
kind. -/
theorem set (h : Keyed s.get kind key) {k b : Bytes}
    (hb : Key.kind k = some kind → ∃ a : α, k = key a ∧ Codec.decode? b = some a) :
    Keyed (s.set k b).get kind key := by
  intro k' b' hkind hb'
  rw [Store.get_set] at hb'
  split at hb'
  · rename_i heq
    rw [← Option.some.inj hb', heq]
    exact hb (heq ▸ hkind)
  · exact h k' b' hkind hb'

theorem legible (h : Keyed v kind key) : Legible α v kind := fun k b hkind hb =>
  (h k b hkind hb).imp fun _ => And.right

/-- Such a kind can be listed, with what stands under each key, in the order of the keys. -/
theorem exists_ascending (h : Keyed s.get kind key) :
    ∃ as : List α, Query.loadAll [kind] s = .ok as
      ∧ (as.Pairwise fun a a' => key a < key a')
      ∧ ∀ a, a ∈ as ↔ ∃ b, Key.kind (key a) = some kind ∧ s.get (key a) = some b
        ∧ Codec.decode? b = some a := by
  -- What an entry stands for belongs under the key of the entry.
  have hown : ∀ e ∈ (s.under [kind]).entries, ∀ a : α, Codec.decode? e.2 = some a →
      e.1 = key a := by
    intro e he a ha
    obtain ⟨hstart, hget⟩ := Store.mem_under.1 he
    obtain ⟨a', hkey, ha'⟩ := h e.1 e.2 (Key.singleton_prefix_iff.1 hstart) hget
    rw [hkey, Option.some.inj (ha'.symm.trans ha)]
  refine ⟨_, h.legible.loadAll_eq, ?_, fun a => ?_⟩
  · refine List.pairwise_filterMap.2 ?_
    refine (s.under [kind]).ascending.imp_of_mem fun {e e'} he he' hlt a ha a' ha' => ?_
    rw [← hown e he a ha, ← hown e' he' a' ha']
    exact hlt
  · rw [List.mem_filterMap]
    constructor
    · rintro ⟨e, he, ha⟩
      obtain ⟨hstart, hget⟩ := Store.mem_under.1 he
      rw [hown e he a ha] at hstart hget
      exact ⟨e.2, Key.singleton_prefix_iff.1 hstart, hget, ha⟩
    · rintro ⟨b, hkind, hget, ha⟩
      exact ⟨(key a, b), Store.mem_under.2 ⟨Key.singleton_prefix_iff.2 hkind, hget⟩, ha⟩

/-- Where the records that satisfy a condition stay as they are and the others go, so it is in the
list. -/
theorem loadAll_filter {t : Store} (h : Keyed s.get kind key) {p : α → Prop} [DecidablePred p]
    (hold : ∀ k b, Key.kind k = some kind → t.get k = some b → s.get k = some b)
    (hrecord : ∀ a, t.get (key a) = if p a then s.get (key a) else none) :
    ∃ as : List α, Query.loadAll [kind] s = .ok as
      ∧ Query.loadAll [kind] t = .ok (as.filter fun a => p a) := by
  have hleft : Keyed t.get kind key := fun k b hk hb => h k b hk (hold k b hk hb)
  obtain ⟨as, has, hascending, hmem⟩ := h.exists_ascending
  obtain ⟨bs, hbs, hascending', hmem'⟩ := hleft.exists_ascending
  refine ⟨as, has, hbs.trans (congrArg Except.ok ?_)⟩
  refine eq_of_mem_iff_of_ascending (fun a => ?_) hascending' (hascending.filter _)
  rw [hmem', List.mem_filter, hmem, hrecord, decide_eq_true_eq]
  by_cases ha : p a
  · simp [ha]
  · simp [ha]

end Keyed

/-! ## The list of a kind in order -/

/-- A kind in order can be listed. The list has exactly the records under the kind, in the
order of their keys. -/
theorem Filed.exists_ascending {s : Store} (h : Filed s.get kind key good)
    (hfaithful : ∀ a : α, Codec.Faithful a) :
    ∃ as : List α, Query.loadAll [kind] s = .ok as ∧ (∀ a ∈ as, good a)
      ∧ (as.Pairwise fun a b => key a < key b)
      ∧ ∀ k b, Key.kind k = some kind →
        (s.get k = some b ↔ ∃ a ∈ as, k = key a ∧ b = Codec.encode a) := by
  obtain ⟨as, hload, hascending, hmem⟩ := (h.keyed hfaithful).exists_ascending
  have hrecord : ∀ a ∈ as, s.get (key a) = some (Codec.encode a) ∧ good a := by
    intro a ha
    obtain ⟨b, hkind, hget, hdecode⟩ := (hmem a).1 ha
    obtain ⟨a', -, hencode, hgood⟩ := h _ b hkind hget
    rw [hencode, Codec.decode?_encode (hfaithful a')] at hdecode
    obtain rfl := Option.some.inj hdecode
    exact ⟨hencode ▸ hget, hgood⟩
  refine ⟨as, hload, fun a ha => (hrecord a ha).2, hascending, fun k b hkind => ?_⟩
  constructor
  · intro hb
    obtain ⟨a, rfl, rfl, -⟩ := h k b hkind hb
    exact ⟨a, (hmem a).2 ⟨_, hkind, hb, Codec.decode?_encode (hfaithful a)⟩, rfl, rfl⟩
  · rintro ⟨a, ha, rfl, rfl⟩
    exact (hrecord a ha).1

omit [Codec α] in
/-- Records in ascending key order have different keys. -/
theorem nodup_of_ascending {as : List α} (h : as.Pairwise fun a b => key a < key b) :
    (as.map key).Nodup := by
  rw [List.nodup_iff_pairwise_ne, List.pairwise_map]
  refine h.imp fun {a b} (hlt : key a < key b) heq => ?_
  rw [heq] at hlt
  exact List.lt_irrefl (key b) hlt

/-- No two records of the list share a key. -/
theorem Filed.exists_list {s : Store} (h : Filed s.get kind key good)
    (hfaithful : ∀ a : α, Codec.Faithful a) :
    ∃ as : List α, Query.loadAll [kind] s = .ok as ∧ (∀ a ∈ as, good a)
      ∧ (as.map key).Nodup
      ∧ ∀ k b, Key.kind k = some kind →
        (s.get k = some b ↔ ∃ a ∈ as, k = key a ∧ b = Codec.encode a) := by
  obtain ⟨as, hload, hgood, hascending, hkeys⟩ := h.exists_ascending hfaithful
  exact ⟨as, hload, hgood, nodup_of_ascending hascending, hkeys⟩

end Backrun
