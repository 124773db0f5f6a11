import Backrun.Genesis.Checkpoint
import Backrun.Proofs.Genesis.Valid
import Backrun.Proofs.Instant.Text
import Backrun.Proofs.Registry.Registered

/-!
# Importing a document

An import is a sequence of stages, each of which writes kinds of keys of its own
(`Puts`).  Stages of different kinds do not disturb each other, so a valid document ends
up in every store record by record (`Imported`), and in an empty one there is nothing
besides (`Holds`).
-/

namespace Backrun

/-- Records that differ in one respect differ in whatever determines it. -/
theorem nodup_map_of_nodup {α β γ : Type} {f : α → β} {g : α → γ} {as : List α}
    (h : (as.map f).Nodup) (hdetermines : ∀ {a b}, g a = g b → f a = f b) :
    (as.map g).Nodup := by
  rw [List.nodup_iff_pairwise_ne, List.pairwise_map] at h ⊢
  exact h.imp fun hne heq => hne (hdetermines heq)

/-! ## Kinds that hold the records of a list -/

section Kept

variable {α : Type} [Codec α] {v w : View} {kind : UInt8} {key : α → Bytes}
  {as bs : List α}

/-- The records of a kind are those of a list. -/
def Kept (v : View) (kind : UInt8) (key : α → Bytes) (as : List α) : Prop :=
  ∀ k b, Key.kind k = some kind → (v k = some b ↔ ∃ a ∈ as, k = key a ∧ b = Codec.encode a)

theorem Kept.congr (h : Kept v kind key as) (heq : ∀ k, Key.kind k = some kind → w k = v k) :
    Kept w kind key as := by
  intro k b hkind
  rw [heq k hkind]
  exact h k b hkind

/-- Two views that hold the same list under a kind are the same there. -/
theorem Kept.unique (hv : Kept v kind key as) (hw : Kept w kind key as) {k : Bytes}
    (hkind : Key.kind k = some kind) : v k = w k :=
  Option.ext fun b => (hv k b hkind).trans (hw k b hkind).symm

theorem Kept.get (h : Kept v kind key as) {a : α} (ha : a ∈ as)
    (hkind : Key.kind (key a) = some kind) : v (key a) = some (Codec.encode a) :=
  (h (key a) _ hkind).2 ⟨a, ha, rfl, rfl⟩

theorem Kept.filed (h : Kept v kind key as) {good : α → Prop} (hgood : ∀ a ∈ as, good a) :
    Filed v kind key good := by
  intro k b hkind hb
  obtain ⟨a, ha, hkey, hencode⟩ := (h k b hkind).1 hb
  exact ⟨a, hkey, hencode, hgood a ha⟩

/-- The order of a list does not matter to what holds its records. -/
theorem Kept.perm (h : Kept v kind key as) (hperm : as.Perm bs) : Kept v kind key bs := by
  intro k b hkind
  rw [h k b hkind]
  exact exists_congr fun a => and_congr_left fun _ => hperm.mem_iff

/-- The list has what can be read under the keys of the kind. -/
theorem Kept.mem_iff (h : Kept v kind key as) (hfaithful : ∀ a : α, Codec.Faithful a)
    (hkind : ∀ a, Key.kind (key a) = some kind) {a : α} :
    a ∈ as ↔ ∃ b, v (key a) = some b ∧ Codec.decode? b = some a := by
  constructor
  · exact fun ha => ⟨_, h.get ha (hkind a), Codec.decode?_encode (hfaithful a)⟩
  · rintro ⟨b, hb, hdecode⟩
    obtain ⟨a', ha', -, hencode⟩ := (h _ b (hkind a)).1 hb
    rw [hencode, Codec.decode?_encode (hfaithful a')] at hdecode
    exact Option.some.inj hdecode ▸ ha'

/-- A walk over a kind meets the records of a list in key order. -/
theorem Kept.loadAll {s : Store} (h : Kept s.get kind key as)
    (hfaithful : ∀ a : α, Codec.Faithful a) (hkind : ∀ a, Key.kind (key a) = some kind)
    (hascending : as.Pairwise fun a b => key a < key b) : Query.loadAll [kind] s = .ok as := by
  have hkeyed := (h.filed fun _ _ => trivial).keyed hfaithful
  obtain ⟨bs, hload, hascending', hmem⟩ := hkeyed.exists_ascending
  refine hload.trans (congrArg Except.ok ?_)
  refine eq_of_mem_iff_of_ascending (fun a => ?_) hascending' hascending
  rw [hmem, h.mem_iff hfaithful hkind]
  simp only [hkind, true_and]

end Kept

/-! ## Stages -/

/-- Two views are the same under all keys of some kinds. -/
def View.SameUnder (kinds : List UInt8) (v w : View) : Prop :=
  ∀ k, ∀ b ∈ kinds, Key.kind k = some b → w k = v k

/-- An action that always succeeds, writes keys of some kinds only, and whatever these keys held
before, leaves them in a relation to that. -/
structure Puts (a : Action Unit) (kinds : List UInt8) (R : View → View → Prop) : Prop where
  run : ∀ s, ∃ t, a.perform s = (.ok (), t)
    ∧ (∀ k, (∀ b ∈ kinds, Key.kind k ≠ some b) → t.get k = s.get k) ∧ R s.get t.get
  depends : ∀ {v v' w w' : View}, View.SameUnder kinds v v' → View.SameUnder kinds w w' →
    R v w → R v' w'

/-- Of a kind the records of a list have been saved, and everything else is as it was. -/
structure Saves {α : Type} [Codec α] (kind : UInt8) (key : α → Bytes) (as : List α) (v w : View) :
    Prop where
  saved : ∀ x ∈ as, w (key x) = some (Codec.encode x)
  others : ∀ k, Key.kind k = some kind → k ∉ as.map key → w k = v k

/-- Where there was nothing, there is nothing but what has been saved. -/
theorem Saves.kept {α : Type} [Codec α] {kind : UInt8} {key : α → Bytes} {as : List α} {v w : View}
    (h : Saves kind key as v w) (hempty : ∀ k, Key.kind k = some kind → v k = none) :
    Kept w kind key as := by
  intro k b hk
  constructor
  · intro hb
    by_cases hmem : k ∈ as.map key
    · obtain ⟨x, hx, rfl⟩ := List.mem_map.1 hmem
      rw [h.saved x hx] at hb
      exact ⟨x, hx, rfl, (Option.some.inj hb).symm⟩
    · rw [h.others k hk hmem, hempty k hk] at hb
      cases hb
  · rintro ⟨x, hx, rfl, rfl⟩
    exact h.saved x hx

namespace Puts

variable {a b : Action Unit} {kinds others : List UInt8} {R Q : View → View → Prop}

/-- Stages of different kinds do not disturb each other. -/
theorem andThen (ha : Puts a kinds R) (hb : Puts b others Q)
    (hapart : ∀ x ∈ kinds, x ∉ others) :
    Puts (a >>= fun _ => b) (kinds ++ others) fun v w => R v w ∧ Q v w where
  run s := by
    obtain ⟨mid, hmid, hframe, hR⟩ := ha.run s
    obtain ⟨t, ht, hframe', hQ⟩ := hb.run mid
    -- The second stage writes no key of the first one's kinds, nor the other way round.
    have hfirst : View.SameUnder kinds mid.get t.get := by
      refine fun k x hx hkind => hframe' k fun y hy hkind' => hapart x hx ?_
      rw [hkind] at hkind'
      exact Option.some.inj hkind' ▸ hy
    have hsecond : View.SameUnder others mid.get s.get := by
      refine fun k x hx hkind => (hframe k fun y hy hkind' => hapart y hy ?_).symm
      rw [hkind] at hkind'
      exact Option.some.inj hkind' ▸ hx
    refine ⟨t, Action.perform_bind_ok.2 ⟨(), mid, hmid, ht⟩, fun k hk => ?_,
      ha.depends (fun _ _ _ _ => rfl) hfirst hR, hb.depends hsecond (fun _ _ _ _ => rfl) hQ⟩
    rw [hframe' k fun x hx => hk x (List.mem_append_right kinds hx),
      hframe k fun x hx => hk x (List.mem_append_left others hx)]
  depends hv hw h :=
    ⟨ha.depends (fun k x hx => hv k x (List.mem_append_left others hx))
        (fun k x hx => hw k x (List.mem_append_left others hx)) h.1,
      hb.depends (fun k x hx => hv k x (List.mem_append_right kinds hx))
        (fun k x hx => hw k x (List.mem_append_right kinds hx)) h.2⟩

/-- The relation may be stated differently. -/
theorem congr {R' : View → View → Prop} (ha : Puts a kinds R) (hiff : ∀ v w, R v w ↔ R' v w) :
    Puts a kinds R' where
  run s := by
    obtain ⟨t, ht, hframe, hR⟩ := ha.run s
    exact ⟨t, ht, hframe, (hiff _ _).1 hR⟩
  depends hv hw h := (hiff _ _).1 (ha.depends hv hw ((hiff _ _).2 h))

/-- Saving records one by one, each under a key of its own, changes these keys and no others. -/
theorem perform_forM_save {α : Type} [Codec α] {key : α → Bytes} {act : α → Action Unit}
    {as : List α}
    (hact : ∀ x ∈ as, ∀ s, (act x).perform s = (.ok (), s.set (key x) (Codec.encode x)))
    (hkeys : (as.map key).Nodup) (s : Store) :
    ∃ t, (as.forM act).perform s = (.ok (), t)
      ∧ (∀ x ∈ as, t.get (key x) = some (Codec.encode x))
      ∧ ∀ k, k ∉ as.map key → t.get k = s.get k := by
  induction as generalizing s with
  | nil => exact ⟨s, rfl, nofun, fun _ _ => rfl⟩
  | cons x xs ih =>
      rw [List.map_cons, List.nodup_cons] at hkeys
      obtain ⟨t, ht, hsaved, hframe⟩ := ih (fun y hy => hact y (List.mem_cons_of_mem x hy))
        hkeys.2 (s.set (key x) (Codec.encode x))
      -- No later record is saved under the key of the first one, so that one stays.
      refine ⟨t, ?_, List.forall_mem_cons.2 ⟨?_, hsaved⟩, fun k hk => ?_⟩
      · exact Action.perform_bind_ok.2 ⟨(), _, hact x List.mem_cons_self s, ht⟩
      · rw [hframe _ hkeys.1, Store.get_set_self]
      · rw [List.map_cons, List.mem_cons, not_or] at hk
        rw [hframe k hk.2, Store.get_set_of_ne s _ hk.1]

/-- Saving records of a kind one by one, each under a key of its own. -/
theorem forM {α : Type} [Codec α] {kind : UInt8} {key : α → Bytes} {act : α → Action Unit}
    {as : List α}
    (hact : ∀ x ∈ as, ∀ s, (act x).perform s = (.ok (), s.set (key x) (Codec.encode x)))
    (hkind : ∀ x, Key.kind (key x) = some kind) (hkeys : (as.map key).Nodup) :
    Puts (as.forM act) [kind] (Saves kind key as) where
  run s := by
    obtain ⟨t, ht, hsaved, hframe⟩ := perform_forM_save hact hkeys s
    refine ⟨t, ht, fun k hk => hframe k fun hmem => ?_, ⟨hsaved, fun k _ => hframe k⟩⟩
    obtain ⟨x, -, rfl⟩ := List.mem_map.1 hmem
    exact hk kind List.mem_cons_self (hkind x)
  depends hv hw h := by
    refine ⟨fun x hx => ?_, fun k hk hmem => ?_⟩
    · rw [hw _ kind List.mem_cons_self (hkind x), h.saved x hx]
    · rw [hw k kind List.mem_cons_self hk, hv k kind List.mem_cons_self hk, h.others k hk hmem]

/-- Saving one record of a kind. -/
theorem save {α : Type} [Codec α] {kind : UInt8} {key : Bytes} {act : Action Unit} {x : α}
    (hact : ∀ s, act.perform s = (.ok (), s.set key (Codec.encode x)))
    (hkind : Key.kind key = some kind) :
    Puts act [kind] (Saves kind (fun _ : α => key) [x]) := by
  have hsingle : Puts ([x].forM fun _ => act) [kind] (Saves kind (fun _ : α => key) [x]) :=
    forM (fun y hy s => List.mem_singleton.1 hy ▸ hact s) (fun _ => hkind) (List.nodup_singleton _)
  refine ⟨fun s => ?_, hsingle.depends⟩
  obtain ⟨t, ht, hrest⟩ := hsingle.run s
  obtain ⟨_, u, hu, hdone⟩ := Action.perform_bind_ok.1 ht
  cases hdone
  exact ⟨_, hu, hrest⟩

end Puts

/-! ## The stages of an import -/

namespace Genesis

variable {g : Genesis}

/-- A view holds the records of a document, and none besides. -/
structure Holds (v : View) (g : Genesis) : Prop where
  config : Kept v 0x04 (fun _ => Key.config) [g.config]
  counter : Kept v 0x05 (fun _ => Key.pointCounter) [g.counter]
  time : Kept v 0x07 (fun _ => Key.genesisTime) [g.time]
  routes : Kept v 0x01 (fun entry => Key.pairRoutes entry.pair) g.routes
  bases : Registry.Listed v g.bases
  pools : Kept v 0x03 (fun e => Key.pool e.base e.counter) g.pools
  fees : Kept v 0x06 (fun c => Key.developerFees c.denom) g.fees
  trades : Kept v 0x08 (fun _ => Key.tradeCount) [g.trades]
  profits : Kept v 0x09 (fun c => Key.profits c.denom) g.profits

/-- Admissible routes are registered as they stand. -/
theorem perform_setRoutes {mostHops : UInt64} {entry : PairRoutes}
    (h : entry.Admissible mostHops) (s : Store) :
    (Registry.setRoutes entry.pair.tokenA entry.pair.tokenB entry.routes mostHops).perform s
      = (.ok (), s.set (Key.pairRoutes entry.pair) (Codec.encode entry)) := by
  have hcycles : PairRoutes.validateRoutes mostHops entry.pair entry.routes = .ok () :=
    PairRoutes.validateRoutes_ok.2 fun r hr => ⟨h.cycles r hr, h.touching r hr⟩
  refine Registry.setRoutes_ok.2 ⟨h.proper, ?_, ?_⟩
  · rw [h.canonical]
    exact hcycles
  · rw [if_neg (mt List.isEmpty_iff.1 h.nonempty), h.canonical]

/-- A pool between two denominations is indexed as it stands. -/
theorem perform_setPool {e : PoolEntry} (h : e.base ≠ e.counter) (s : Store) :
    (Registry.setPool e.base e.counter e.poolId).perform s
      = (.ok (), s.set (Key.pool e.base e.counter) (Codec.encode e)) := by
  rw [Registry.setPool, if_neg h]
  rfl

/-- Pairs that differ have different keys. -/
theorem routeKeys_nodup (hg : g.Valid) :
    (g.routes.map fun entry => Key.pairRoutes entry.pair).Nodup :=
  nodup_map_of_nodup hg.pairs Key.pairRoutes_injective

theorem poolKeys_nodup (hg : g.Valid) :
    (g.pools.map fun e => Key.pool e.base e.counter).Nodup := by
  refine nodup_map_of_nodup hg.poolPairs fun heq => ?_
  obtain ⟨hbase, hcounter⟩ := Key.pool_injective heq
  rw [hbase, hcounter]

theorem feeKeys_nodup (hg : g.Valid) : (g.fees.map fun c => Key.developerFees c.denom).Nodup :=
  nodup_map_of_nodup hg.fees Key.developerFees_injective

theorem profitKeys_nodup (hg : g.Valid) : (g.profits.map fun c => Key.profits c.denom).Nodup :=
  nodup_map_of_nodup hg.profits Key.profits_injective

/-- What an import makes of the records of an engine. -/
structure Imported (g : Genesis) (v w : View) : Prop where
  config : Saves 0x04 (fun _ => Key.config) [g.config] v w
  counter : Saves 0x05 (fun _ => Key.pointCounter) [g.counter] v w
  time : Saves 0x07 (fun _ => Key.genesisTime) [g.time] v w
  routes : Saves 0x01 (fun entry => Key.pairRoutes entry.pair) g.routes v w
  noBases : g.bases = [] → View.SameUnder [0x02] v w
  /-- A list of base denominations takes the place of the one before, as it stands, if its indices
  are different words. -/
  bases : g.bases ≠ [] → ∃ bases, Registry.Listed w bases ∧ BaseDenom.Sound bases
    ∧ (g.bases.length ≤ UInt64.size → bases = g.bases)
  pools : Saves 0x03 (fun e => Key.pool e.base e.counter) g.pools v w
  fees : Saves 0x06 (fun c => Key.developerFees c.denom) g.fees v w
  trades : Saves 0x08 (fun _ => Key.tradeCount) [g.trades] v w
  profits : Saves 0x09 (fun c => Key.profits c.denom) g.profits v w

/-- An empty list does not reach the registry, whose check refuses it. -/
theorem puts_bases (hg : g.Valid) :
    Puts (if ¬ g.bases.isEmpty then Registry.setBaseDenoms g.bases else pure ()) [0x02]
      fun v w => (g.bases = [] → View.SameUnder [0x02] v w)
        ∧ (g.bases ≠ [] → ∃ bases, Registry.Listed w bases ∧ BaseDenom.Sound bases
          ∧ (g.bases.length ≤ UInt64.size → bases = g.bases)) where
  run s := by
    by_cases hnil : g.bases = []
    · refine ⟨s, ?_, fun _ _ => rfl, fun _ _ _ _ _ => rfl, fun hne => absurd hnil hne⟩
      rw [hnil]
      rfl
    · obtain ⟨t, bases, ht, hlisted, hsound, hall, hframe⟩ :=
        Registry.perform_setBaseDenoms s (BaseDenom.validateList_ok.2 ⟨hnil, hg.bases⟩)
      refine ⟨t, ?_, fun k hk => hframe k (hk 0x02 List.mem_cons_self), fun h => absurd h hnil,
        fun _ => ⟨bases, hlisted, hsound, hall⟩⟩
      rw [if_pos (mt List.isEmpty_iff.1 hnil)]
      exact ht
  depends := by
    rintro v v' w w' hv hw ⟨hnone, hsome⟩
    refine ⟨fun hnil k b hb hk => ?_, fun hne => ?_⟩
    · rw [hw k b hb hk, hv k b hb hk, hnone hnil k b hb hk]
    · obtain ⟨bases, hlisted, hsound, hall⟩ := hsome hne
      exact ⟨bases, hlisted.congr fun k hk => hw k 0x02 List.mem_cons_self hk, hsound, hall⟩

/-- The writing part of an import, stage by stage. -/
def stages (g : Genesis) : Action Unit := do
  saveConfig g.config
  Budget.saveCounter g.counter
  Ledger.setGenesisTime g.time
  importRoutes g.config.search.mostHops g.routes
  (if ¬ g.bases.isEmpty then Registry.setBaseDenoms g.bases else pure ())
  g.pools.forM fun e => Registry.setPool e.base e.counter e.poolId
  g.fees.forM Ledger.setFees
  Ledger.setTrades g.trades
  g.profits.forM Ledger.setProfit

theorem staysFlat_stages (g : Genesis) : g.stages.StaysFlat := by
  refine .bind (.bind (.verdict _) fun _ => .save _ _) fun _ => .bind (.save _ _) fun _ =>
    .bind (.save _ _) fun _ => .bind (.forM fun e => Registry.staysFlat_setRoutes _ _ _ _) fun _ =>
    .bind ?_ fun _ => .bind (.forM fun e => Registry.staysFlat_setPool _ _ _) fun _ =>
    .bind (.forM fun c => .save _ _) fun _ => .bind (.save _ _) fun _ => .forM fun c => .save _ _
  split
  · exact Registry.staysFlat_setBaseDenoms g.bases
  · exact .pure ()

/-- An import is the check followed by the stages. -/
theorem perform_store_of_valid (hg : g.Valid) (s : Store) :
    g.store.perform s = g.stages.perform s := by
  have hcheck : (liftM (g.validate.mapError Error.invalidConfig) : Action Unit).perform s
      = (.ok (), s) := by
    rw [Action.perform_liftVerdict, Verdict.mapError_ok.2 (validate_ok.2 hg)]
  rw [store, Action.perform_bind_of_ok hcheck, stages]
  by_cases hnil : g.bases.isEmpty = true
  · simp only [hnil, not_true, if_false]
    rfl
  · simp only [hnil]
    rfl

/-- The stages of a valid document run through on every store. -/
theorem puts_stages (hg : g.Valid) :
    Puts g.stages [0x04, 0x05, 0x07, 0x01, 0x02, 0x03, 0x06, 0x08, 0x09] (Imported g) := by
  have hconfig : Puts (saveConfig g.config) [0x04] _ :=
    Puts.save (fun s => perform_saveConfig_ok.2 ⟨hg.config, rfl⟩) rfl
  have hcounter : Puts (Budget.saveCounter g.counter) [0x05] _ := Puts.save (fun _ => rfl) rfl
  have htime : Puts (Ledger.setGenesisTime g.time) [0x07] _ := Puts.save (fun _ => rfl) rfl
  have hroutes : Puts (importRoutes g.config.search.mostHops g.routes) [0x01] _ :=
    Puts.forM (fun entry hentry => perform_setRoutes (hg.routes entry hentry)) (fun _ => rfl)
      (routeKeys_nodup hg)
  have hpools : Puts (g.pools.forM fun e => Registry.setPool e.base e.counter e.poolId) [0x03] _ :=
    Puts.forM (fun e he => perform_setPool (hg.pools e he)) (fun _ => rfl) (poolKeys_nodup hg)
  have hfees : Puts (g.fees.forM Ledger.setFees) [0x06] _ :=
    Puts.forM (fun _ _ _ => rfl) (fun _ => rfl) (feeKeys_nodup hg)
  have htrades : Puts (Ledger.setTrades g.trades) [0x08] _ := Puts.save (fun _ => rfl) rfl
  have hprofits : Puts (g.profits.forM Ledger.setProfit) [0x09] _ :=
    Puts.forM (fun _ _ _ => rfl) (fun _ => rfl) (profitKeys_nodup hg)
  -- Nine stages for the nine kinds, in the order in which an import runs them.
  have hall := hconfig.andThen (hcounter.andThen (htime.andThen (hroutes.andThen
    ((puts_bases hg).andThen (hpools.andThen (hfees.andThen (htrades.andThen hprofits
      (by simp)) (by simp)) (by simp)) (by simp)) (by simp)) (by simp)) (by simp)) (by simp)
  refine hall.congr fun v w => ⟨?_, fun h => ?_⟩
  · rintro ⟨hconfig, hcounter, htime, hroutes, ⟨hnone, hbases⟩, hpools, hfees, htrades, hprofits⟩
    exact ⟨hconfig, hcounter, htime, hroutes, hnone, hbases, hpools, hfees, htrades, hprofits⟩
  · exact ⟨h.config, h.counter, h.time, h.routes, ⟨h.noBases, h.bases⟩, h.pools, h.fees, h.trades,
      h.profits⟩

/-- Where there was nothing, there is nothing but the records of the document. -/
theorem Imported.holds {v w : View} (h : Imported g v w)
    (hempty : ∀ k, Key.IsEngine k → v k = none) :
    ∃ bases, Holds w { g with bases } ∧ BaseDenom.Sound bases
      ∧ (g.bases.length ≤ UInt64.size → bases = g.bases) := by
  obtain ⟨bases, hlisted, hsound, hall⟩ : ∃ bases, Registry.Listed w bases
      ∧ BaseDenom.Sound bases ∧ (g.bases.length ≤ UInt64.size → bases = g.bases) := by
    by_cases hnil : g.bases = []
    · refine ⟨[], Registry.Listed.nil fun k hk => ?_, ⟨List.nodup_nil, nofun⟩,
        fun _ => hnil.symm⟩
      rw [h.noBases hnil k 0x02 List.mem_cons_self hk]
      exact hempty k (Key.isEngine_of_kind hk)
    · exact h.bases hnil
  exact ⟨bases, {
    config := h.config.kept fun k hk => hempty k (Key.isEngine_of_kind hk)
    counter := h.counter.kept fun k hk => hempty k (Key.isEngine_of_kind hk)
    time := h.time.kept fun k hk => hempty k (Key.isEngine_of_kind hk)
    routes := h.routes.kept fun k hk => hempty k (Key.isEngine_of_kind hk)
    bases := hlisted
    pools := h.pools.kept fun k hk => hempty k (Key.isEngine_of_kind hk)
    fees := h.fees.kept fun k hk => hempty k (Key.isEngine_of_kind hk)
    trades := h.trades.kept fun k hk => hempty k (Key.isEngine_of_kind hk)
    profits := h.profits.kept fun k hk => hempty k (Key.isEngine_of_kind hk) }, hsound, hall⟩

/-- The stages of an import write keys of the engine. -/
theorem isEngine_of_stage {b : UInt8} {k : Bytes}
    (hb : b ∈ ([0x04, 0x05, 0x07, 0x01, 0x02, 0x03, 0x06, 0x08, 0x09] : List UInt8))
    (hk : Key.kind k = some b) : Key.IsEngine k := by
  simp only [List.mem_cons, List.not_mem_nil, or_false] at hb
  rcases hb with rfl | rfl | rfl | rfl | rfl | rfl | rfl | rfl | rfl <;>
    exact Key.isEngine_of_kind hk

/-- A valid document can be imported into every store, and an empty one then holds its
records. -/
theorem perform_store (hg : g.Valid) (s : Store) (hempty : ∀ k, Key.IsEngine k → s.get k = none) :
    ∃ t bases, g.store.perform s = (.ok (), t) ∧ Holds t.get { g with bases }
      ∧ BaseDenom.Sound bases ∧ (g.bases.length ≤ UInt64.size → bases = g.bases) := by
  obtain ⟨t, ht, -, himported⟩ := (puts_stages hg).run s
  obtain ⟨bases, hholds, hsound, hsame⟩ := himported.holds hempty
  exact ⟨t, bases, (perform_store_of_valid hg s).trans ht, hholds, hsound, hsame⟩

/-- Only valid documents are imported. -/
theorem valid_of_perform_store {s t : Store} {u : Unit} (h : g.store.perform s = (.ok u, t)) :
    g.Valid := by
  rw [store, Action.perform_verdict_bind_ok] at h
  obtain ⟨_, hvalid, -⟩ := h
  exact validate_ok.1 (Verdict.mapError_ok.1 hvalid)

/-- An import writes no key outside those of the engine. -/
theorem frame_of_perform_store {s t : Store} {u : Unit} (h : g.store.perform s = (.ok u, t))
    {k : Bytes} (hk : ¬ Key.IsEngine k) : t.get k = s.get k := by
  have hg := valid_of_perform_store h
  obtain ⟨t', ht', hframe, -⟩ := (puts_stages hg).run s
  rw [← perform_store_of_valid hg s, h] at ht'
  rw [(Prod.mk.inj ht').2]
  exact hframe k fun b hb hkind => hk (isEngine_of_stage hb hkind)

/-- Two views that hold the same document are the same under all keys of the engine. -/
theorem Holds.unique {v w : View} (hv : Holds v g) (hw : Holds w g) {k : Bytes}
    (hk : Key.IsEngine k) : v k = w k := by
  rcases Key.isEngine_iff.1 hk with hk | hk | hk | hk | hk | hk | hk | hk | hk
  · exact hv.routes.unique hw.routes hk
  · exact hv.bases.unique hw.bases hk
  · exact hv.pools.unique hw.pools hk
  · exact hv.config.unique hw.config hk
  · exact hv.counter.unique hw.counter hk
  · exact hv.fees.unique hw.fees hk
  · exact hv.time.unique hw.time hk
  · exact hv.trades.unique hw.trades hk
  · exact hv.profits.unique hw.profits hk

end Genesis

end Backrun
