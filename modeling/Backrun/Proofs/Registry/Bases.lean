import Backrun.Proofs.Store.Actions
import Backrun.Proofs.Store.Keys
import Backrun.Proofs.Verdict

/-!
# The list of base denominations

A stored list has one record for each index, in ascending key order, and none behind
the last.  Writing it anew leaves such a list whatever its length: an index is a word,
so from the end of the word on the writing begins again at the front.
-/

namespace Backrun

namespace BaseDenom

/-- Different denominations with positive steps. -/
structure Sound (bases : List BaseDenom) : Prop where
  distinct : (bases.map BaseDenom.denom).Nodup
  positive : ∀ b ∈ bases, b.stepSize ≠ 0

theorem listFault?_eq_none {seen : List Denom} {bases : List BaseDenom} :
    listFault? seen bases = none
      ↔ Verdict.Unseen BaseDenom.denom seen bases ∧ ∀ b ∈ bases, b.stepSize ≠ 0 := by
  induction bases generalizing seen with
  | nil => exact ⟨fun _ => ⟨Verdict.unseen_nil _ _, nofun⟩, fun _ => rfl⟩
  | cons b rest ih =>
      rw [listFault?, Verdict.unseen_cons, List.forall_mem_cons]
      by_cases hseen : b.denom ∈ seen
      · simp [hseen]
      · by_cases hstep : b.stepSize = 0
        · rw [if_neg hseen, if_pos hstep]
          exact ⟨nofun, fun h => absurd hstep h.2.1⟩
        · rw [if_neg hseen, if_neg hstep, ih]
          constructor
          · rintro ⟨hunseen, hpositive⟩
            exact ⟨⟨hseen, hunseen⟩, hstep, hpositive⟩
          · rintro ⟨⟨-, hunseen⟩, -, hpositive⟩
            exact ⟨hunseen, hpositive⟩

/-- The check of a list accepts different denominations with positive steps. -/
theorem validateList_ok {bases : List BaseDenom} :
    validateList bases = .ok () ↔ bases ≠ [] ∧ Sound bases := by
  have hnone : listFault? [] bases = none ↔ Sound bases := by
    rw [listFault?_eq_none, Verdict.unseen_nothing]
    exact ⟨fun h => ⟨h.1, h.2⟩, fun h => ⟨h.distinct, h.positive⟩⟩
  rw [validateList, Verdict.reject_ok, List.isEmpty_iff, ← hnone]
  cases listFault? [] bases <;> simp

theorem Sound.append {bases : List BaseDenom} {b : BaseDenom} (h : Sound bases)
    (hfresh : ∀ b' ∈ bases, b'.denom ≠ b.denom) (hstep : b.stepSize ≠ 0) :
    Sound (bases ++ [b]) := by
  refine ⟨?_, ?_⟩
  · rw [List.map_append, List.nodup_append]
    refine ⟨h.distinct, List.pairwise_singleton _ _, ?_⟩
    intro d hd d' hd'
    obtain ⟨b', hb', rfl⟩ := List.mem_map.1 hd
    rw [List.mem_singleton.1 hd']
    exact hfresh b' hb'
  · intro b' hb'
    rcases List.mem_append.1 hb' with hb' | hb'
    · exact h.positive b' hb'
    · rw [List.mem_singleton.1 hb']
      exact hstep

theorem Sound.set {bases : List BaseDenom} {b : BaseDenom} (h : Sound bases) (i : Nat)
    (hfresh : ∀ b' ∈ bases, b'.denom ≠ b.denom) (hstep : b.stepSize ≠ 0) :
    Sound (bases.set i b) := by
  refine ⟨?_, ?_⟩
  · rw [List.map_set]
    refine List.Nodup.set h.distinct ?_
    intro hmem
    obtain ⟨b', hb', heq⟩ := List.mem_map.1 hmem
    exact hfresh b' hb' heq
  · intro b' hb'
    rcases List.mem_or_eq_of_mem_set hb' with hb' | rfl
    · exact h.positive b' hb'
    · exact hstep

end BaseDenom

namespace Registry

/-! ## The list in a view -/

/-- The records of base denominations in a view are those of a list. -/
structure Listed (v : View) (bases : List BaseDenom) : Prop where
  short : bases.length ≤ UInt64.size
  record : ∀ i (h : i < bases.length),
    v (Key.baseDenom (UInt64.ofNat i)) = some (Codec.encode bases[i])
  only : ∀ k b, Key.kind k = some 0x02 → v k = some b →
    ∃ i, i < bases.length ∧ k = Key.baseDenom (UInt64.ofNat i)

theorem baseDenom_ofNat_injective {i j : Nat} (hi : i < UInt64.size) (hj : j < UInt64.size)
    (h : Key.baseDenom (UInt64.ofNat i) = Key.baseDenom (UInt64.ofNat j)) : i = j := by
  have hwords := congrArg UInt64.toNat (Key.baseDenom_injective h)
  rwa [UInt64.toNat_ofNat_of_lt' hi, UInt64.toNat_ofNat_of_lt' hj] at hwords

namespace Listed

variable {v w : View} {bases : List BaseDenom}

/-- No record at all is the empty list. -/
theorem nil (h : ∀ k, Key.kind k = some 0x02 → v k = none) : Listed v [] where
  short := Nat.zero_le _
  record := nofun
  only k b hkind hb := by
    rw [h k hkind] at hb
    exact absurd hb (by simp)

/-- The list depends on its own keys only. -/
theorem congr (h : Listed v bases) (heq : ∀ k, Key.kind k = some 0x02 → w k = v k) :
    Listed w bases where
  short := h.short
  record i hi := (heq _ rfl).trans (h.record i hi)
  only k b hkind hb := h.only k b hkind ((heq k hkind).symm.trans hb)

/-- Views that hold the same list are the same under its keys. -/
theorem unique (hv : Listed v bases) (hw : Listed w bases) {k : Bytes}
    (hkind : Key.kind k = some 0x02) : v k = w k := by
  have hle : ∀ {v w : View}, Listed v bases → Listed w bases →
      ∀ b, v k = some b → w k = some b := by
    intro v w hv hw b hb
    obtain ⟨i, hi, rfl⟩ := hv.only k b hkind hb
    rw [hv.record i hi] at hb
    rw [hw.record i hi, hb]
  exact Option.ext fun b => ⟨hle hv hw b, hle hw hv b⟩

/-- A record at the index behind the last one makes the list longer. -/
theorem append (h : Listed v bases) (hroom : bases.length < UInt64.size) (b : BaseDenom) :
    Listed (v.after ⟨Key.baseDenom (UInt64.ofNat bases.length), some (Codec.encode b)⟩)
      (bases ++ [b]) where
  short := by
    rw [List.length_append, List.length_singleton]
    omega
  record i hi := by
    rw [List.length_append, List.length_singleton] at hi
    rw [View.after]
    by_cases hlast : i = bases.length
    · subst hlast
      simp
    · have hin : i < bases.length := by omega
      have hne : Key.baseDenom (UInt64.ofNat i) ≠ Key.baseDenom (UInt64.ofNat bases.length) :=
        fun heq => hlast (baseDenom_ofNat_injective (by omega) hroom heq)
      rw [if_neg hne, h.record i hin, List.getElem_append_left hin]
  only k x hkind hx := by
    rw [List.length_append, List.length_singleton]
    rw [View.after] at hx
    split at hx
    · rename_i hkey
      exact ⟨bases.length, by omega, hkey⟩
    · obtain ⟨i, hi, hkey⟩ := h.only k x hkind hx
      exact ⟨i, by omega, hkey⟩

/-- A record at an index of the list takes the place of the one that was there. -/
theorem set (h : Listed v bases) {i : Nat} (hi : i < bases.length) (b : BaseDenom) :
    Listed (v.after ⟨Key.baseDenom (UInt64.ofNat i), some (Codec.encode b)⟩) (bases.set i b) where
  short := by
    rw [List.length_set]
    exact h.short
  record j hj := by
    rw [List.length_set] at hj
    have hshort := h.short
    rw [View.after, List.getElem_set]
    by_cases heq : i = j
    · subst heq
      simp
    · have hne : Key.baseDenom (UInt64.ofNat j) ≠ Key.baseDenom (UInt64.ofNat i) :=
        fun hkeys => heq (baseDenom_ofNat_injective (by omega) (by omega) hkeys).symm
      rw [if_neg hne, if_neg heq, h.record j hj]
  only k x hkind hx := by
    rw [List.length_set]
    rw [View.after] at hx
    split at hx
    · rename_i hkey
      exact ⟨i, hi, hkey⟩
    · exact h.only k x hkind hx

end Listed

/-! ## Reading the list -/

variable {s t : Store} {bases : List BaseDenom}

/-- A walk over the records meets them in the order of the list. -/
theorem entries_under_of_listed (h : Listed s.get bases) :
    (s.under Key.allBaseDenoms).entries
      = bases.mapIdx fun i b => (Key.baseDenom (UInt64.ofNat i), Codec.encode b) := by
  have hshort := h.short
  -- Both lists ascend by key, so it is enough that they have the same members.
  refine KeyMap.eq_of_ascending (s.under Key.allBaseDenoms).ascending ?_ ?_
  · rw [Ascending, List.pairwise_iff_getElem]
    intro i j hi hj hlt
    rw [List.length_mapIdx] at hi hj
    simp only [List.getElem_mapIdx]
    refine Key.baseDenom_lt ?_
    rw [UInt64.lt_iff_toNat_lt, UInt64.toNat_ofNat_of_lt' (by omega),
      UInt64.toNat_ofNat_of_lt' (by omega)]
    exact hlt
  · rintro ⟨k, b⟩
    rw [Store.mem_under, Key.allBaseDenoms_prefix_iff, List.mem_mapIdx]
    constructor
    · rintro ⟨hkind, hget⟩
      obtain ⟨i, hi, rfl⟩ := h.only k b hkind hget
      rw [h.record i hi] at hget
      exact ⟨i, hi, by rw [Option.some.inj hget]⟩
    · rintro ⟨i, hi, heq⟩
      cases heq
      exact ⟨rfl, h.record i hi⟩

theorem baseDenoms_of_listed (h : Listed s.get bases) : baseDenoms s = .ok bases := by
  refine Query.loadAll_of_under (fun b _ => BaseDenom.faithful b) ?_
  rw [entries_under_of_listed h]
  refine List.ext_getElem (by simp) fun i hi hi' => ?_
  simp

/-! ## Writing the list -/

/-- A record written behind the end of a list makes it longer, or takes the place of an earlier
one where the indices are used up. -/
theorem listed_set (h : Listed s.get bases) {index : Nat}
    (hindex : bases.length = min index UInt64.size) (hbases : BaseDenom.Sound bases)
    {b : BaseDenom} (hnew : ∀ b' ∈ bases, b'.denom ≠ b.denom) (hstep : b.stepSize ≠ 0) :
    ∃ bases', Listed (s.set (Key.baseDenom (UInt64.ofNat index)) (Codec.encode b)).get bases'
      ∧ bases'.length = min (index + 1) UInt64.size ∧ BaseDenom.Sound bases'
      ∧ (∀ b' ∈ bases', b' ∈ bases ∨ b' = b) ∧ (index < UInt64.size → bases' = bases ++ [b]) := by
  have hview : ∀ i, UInt64.ofNat i = UInt64.ofNat index →
      (s.set (Key.baseDenom (UInt64.ofNat index)) (Codec.encode b)).get
        = View.after s.get ⟨Key.baseDenom (UInt64.ofNat i), some (Codec.encode b)⟩ := by
    intro i hi
    rw [hi]
    exact funext fun k => Store.get_set s _ k _
  by_cases hroom : index < UInt64.size
  · have hlength : bases.length = index := by omega
    refine ⟨bases ++ [b], ?_, ?_, hbases.append hnew hstep, ?_, fun _ => rfl⟩
    · rw [hview bases.length (by rw [hlength])]
      exact h.append (by omega) b
    · rw [List.length_append, List.length_singleton]
      omega
    · intro b' hb'
      simpa using hb'
  -- All words are used up: the index names a record that is there already.
  · have hword : UInt64.ofNat (index % UInt64.size) = UInt64.ofNat index := by
      rw [← UInt64.toNat_inj, UInt64.toNat_ofNat', UInt64.toNat_ofNat']
      exact Nat.mod_mod index _
    have hin : index % UInt64.size < bases.length := by
      have := Nat.mod_lt index (show UInt64.size > 0 by decide)
      omega
    refine ⟨bases.set (index % UInt64.size) b, ?_, ?_, hbases.set _ hnew hstep, ?_,
      fun hlt => absurd hlt hroom⟩
    · rw [hview _ hword]
      exact h.set hin b
    · rw [List.length_set]
      omega
    · exact fun b' hb' => List.mem_or_eq_of_mem_set hb'

/-- Written from the end of a list on, records make it longer, or begin again at its front
where the indices are used up. -/
theorem perform_saveBases (index : Nat) {rest : List BaseDenom} (h : Listed s.get bases)
    (hindex : bases.length = min index UInt64.size) (hbases : BaseDenom.Sound bases)
    (hrest : BaseDenom.Sound rest)
    (hfresh : ∀ b ∈ bases, ∀ b' ∈ rest, b.denom ≠ b'.denom) :
    ∃ t bases', (saveBases index rest).perform s = (.ok (), t) ∧ Listed t.get bases'
      ∧ BaseDenom.Sound bases' ∧ (index + rest.length ≤ UInt64.size → bases' = bases ++ rest)
      ∧ ∀ k, Key.kind k ≠ some 0x02 → t.get k = s.get k := by
  induction rest generalizing s bases index with
  | nil => exact ⟨s, bases, rfl, h, hbases, fun _ => (List.append_nil bases).symm, fun _ _ => rfl⟩
  | cons b rest ih =>
      have hdistinct := hrest.distinct
      rw [List.map_cons, List.nodup_cons] at hdistinct
      have hrest' : BaseDenom.Sound rest :=
        ⟨hdistinct.2, fun b' hb' => hrest.positive b' (List.mem_cons_of_mem b hb')⟩
      have hothers : ∀ b' ∈ rest, b.denom ≠ b'.denom :=
        fun b' hb' heq => hdistinct.1 (List.mem_map.2 ⟨b', hb', heq.symm⟩)
      obtain ⟨bases₁, hlisted, hlength, hsound, hfresh₁, happend⟩ := listed_set h hindex hbases
        (fun b' hb' => hfresh b' hb' b List.mem_cons_self) (hrest.positive b List.mem_cons_self)
      obtain ⟨t, bases', hperform, hlisted', hsound', happend', hframe⟩ :=
        ih _ hlisted hlength hsound hrest' fun b₁ hb₁ b' hb' => by
          rcases hfresh₁ b₁ hb₁ with hold | rfl
          · exact hfresh b₁ hold b' (List.mem_cons_of_mem b hb')
          · exact hothers b' hb'
      refine ⟨t, bases', hperform, hlisted', hsound', fun hfits => ?_, fun k hk => ?_⟩
      · rw [List.length_cons] at hfits
        rw [happend' (by omega), happend (by omega), List.append_assoc]
        rfl
      · rw [hframe k hk, Store.get_set_of_ne]
        exact Key.ne_of_kind hk

/-- A list that is accepted is stored in place of the one before it. -/
theorem perform_setBaseDenoms (s : Store) (h : BaseDenom.validateList bases = .ok ()) :
    ∃ t bases', (setBaseDenoms bases).perform s = (.ok (), t) ∧ Listed t.get bases'
      ∧ BaseDenom.Sound bases' ∧ (bases.length ≤ UInt64.size → bases' = bases)
      ∧ ∀ k, Key.kind k ≠ some 0x02 → t.get k = s.get k := by
  obtain ⟨-, hsound⟩ := BaseDenom.validateList_ok.1 h
  have hdeleted := Store.get_deleteUnder_kind s 0x02
  have hempty : Listed (s.deleteUnder Key.allBaseDenoms).get [] := Listed.nil fun k hk =>
    (hdeleted k).trans (if_pos hk)
  obtain ⟨t, bases', hperform, hlisted, hsound', hall, hframe⟩ := perform_saveBases 0
    hempty rfl ⟨List.nodup_nil, nofun⟩ hsound nofun
  refine ⟨t, bases', ?_, hlisted, hsound', fun hlength => ?_, fun k hk => ?_⟩
  · rw [setBaseDenoms, Action.perform_bind, Action.perform_liftVerdict, h]
    exact hperform
  · exact hall (by omega)
  · exact (hframe k hk).trans ((hdeleted k).trans (if_neg hk))

theorem validateList_of_perform {u : Unit} (h : (setBaseDenoms bases).perform s = (.ok u, t)) :
    BaseDenom.validateList bases = .ok () := by
  rw [setBaseDenoms, Action.perform_verdict_bind_ok] at h
  obtain ⟨_, hvalid, -⟩ := h
  exact Verdict.mapError_ok.1 hvalid

theorem total_saveBases (index : Nat) (bases : List BaseDenom) : (saveBases index bases).Total := by
  induction bases generalizing index with
  | nil => exact Action.Total.pure ()
  | cons b rest ih => exact Action.Total.bind (Action.Total.update _) fun _ => ih (index + 1)

theorem clean_setBaseDenoms (bases : List BaseDenom) : (setBaseDenoms bases).Clean :=
  Action.Clean.verdict_bind fun _ =>
    (Action.Total.bind (Action.Total.update _) fun _ => total_saveBases 0 bases).clean

theorem staysFlat_saveBases (index : Nat) (bases : List BaseDenom) :
    (saveBases index bases).StaysFlat := by
  induction bases generalizing index with
  | nil => exact .pure ()
  | cons b rest ih => exact .bind (.save _ _) fun _ => ih (index + 1)

theorem staysFlat_setBaseDenoms (bases : List BaseDenom) : (setBaseDenoms bases).StaysFlat :=
  .bind (.verdict _) fun _ => .bind (.deleteUnder _) fun _ => staysFlat_saveBases 0 bases

end Registry

end Backrun
