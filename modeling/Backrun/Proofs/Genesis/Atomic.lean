import Backrun.Proofs.Genesis.Import
import Backrun.Proofs.Simulation.Generous

/-!
# Imports are all or nothing

An import is not run on a branch, so that nothing would take its writes back.  It is all or
nothing because each later stage accepts whatever the check of the document has accepted:

* every setter takes every entry of a checked document (`Genesis.Storable`), and so does every
  stage (`Genesis.puts_stages`);
* so an import fails in the check only, before anything is written.

No store has to be empty for this.  In one that is in use, records that the document does not
name stay where they are (`Genesis.Imported`).
-/

namespace Backrun

namespace Genesis

variable {g : Genesis}

/-! ## What the check promises to the setters -/

/-- On a store every setter of an import takes every entry of the document. -/
structure Storable (g : Genesis) (s : Store) : Prop where
  config : ∃ t, (saveConfig g.config).perform s = (.ok (), t)
  routes : ∀ entry ∈ g.routes, ∃ t, (Registry.setRoutes entry.pair.tokenA entry.pair.tokenB
    entry.routes g.config.search.mostHops).perform s = (.ok (), t)
  bases : g.bases ≠ [] → ∃ t, (Registry.setBaseDenoms g.bases).perform s = (.ok (), t)
  pools : ∀ e ∈ g.pools, ∃ t,
    (Registry.setPool e.base e.counter e.poolId).perform s = (.ok (), t)

theorem Valid.storable (hg : g.Valid) (s : Store) : g.Storable s where
  config := ⟨_, perform_saveConfig_ok.2 ⟨hg.config, rfl⟩⟩
  routes entry hentry := ⟨_, perform_setRoutes (hg.routes entry hentry) s⟩
  bases hnil := by
    obtain ⟨t, -, ht, -⟩ :=
      Registry.perform_setBaseDenoms s (BaseDenom.validateList_ok.2 ⟨hnil, hg.bases⟩)
    exact ⟨t, ht⟩
  pools e he := ⟨_, perform_setPool (hg.pools e he) s⟩

/-! ## Imports into any store -/

/-- A document that the check refuses stops an import before its first write. -/
theorem perform_store_of_fault {fault : Invalid} (h : g.validate = .error fault) (s : Store) :
    g.store.perform s = (.error (.invalidConfig fault), s) := by
  have hcheck : (liftM (g.validate.mapError Error.invalidConfig) : Action Unit).perform s
      = (.error (.invalidConfig fault), s) := by
    rw [Action.perform_liftVerdict, h]
    rfl
  rw [store, Action.perform_bind_of_error hcheck]

/-- A document that the check accepts is imported completely, and nothing else is touched. -/
theorem perform_store_of_ok (h : g.validate = .ok ()) (s : Store) :
    ∃ t, g.store.perform s = (.ok (), t) ∧ Imported g s.get t.get
      ∧ ∀ k, ¬ Key.IsEngine k → t.get k = s.get k := by
  have hg := validate_ok.1 h
  obtain ⟨t, ht, -, himported⟩ := (puts_stages hg).run s
  have hstore := (perform_store_of_valid hg s).trans ht
  exact ⟨t, hstore, himported, fun k hk => frame_of_perform_store hstore hk⟩

/-- An import into any store, empty or in use, succeeds exactly if the check accepts the
document.  If it fails, it fails with the fault that the check has found, and the store is as
it was; if it succeeds, the records of the document have been saved and all others are as they
were.  No setter of an import refuses, on any store, an entry of a document that the check
accepts. -/
theorem store_all_or_nothing (g : Genesis) (s : Store) :
    ((∃ t, g.store.perform s = (.ok (), t)) ↔ g.validate = .ok ())
      ∧ (∀ e t, g.store.perform s = (.error e, t) →
        t = s ∧ ∃ fault, g.validate = .error fault ∧ e = .invalidConfig fault)
      ∧ (∀ t, g.store.perform s = (.ok (), t) →
        Imported g s.get t.get ∧ ∀ k, ¬ Key.IsEngine k → t.get k = s.get k)
      ∧ (g.validate = .ok () → ∀ u, g.Storable u) := by
  cases hcheck : g.validate with
  | error fault =>
      have hstore := perform_store_of_fault hcheck s
      refine ⟨⟨fun ⟨t, ht⟩ => ?_, nofun⟩, fun e t ht => ?_, fun t ht => ?_, nofun⟩
      · rw [hstore] at ht
        cases ht
      · rw [hstore] at ht
        cases ht
        exact ⟨rfl, fault, rfl, rfl⟩
      · rw [hstore] at ht
        cases ht
  | ok =>
      obtain ⟨t', hstore, himported, hframe⟩ := perform_store_of_ok hcheck s
      refine ⟨⟨fun _ => rfl, fun _ => ⟨t', hstore⟩⟩, fun e t ht => ?_, fun t ht => ?_,
        fun _ u => (validate_ok.1 hcheck).storable u⟩
      · rw [hstore] at ht
        cases ht
      · rw [hstore] at ht
        cases ht
        exact ⟨himported, hframe⟩

open Simulation in
/-- A document whose last entry is a pool between atoms and atoms. -/
def degenerateGenesis : Genesis :=
  { routeGenesis (tight 10) roundTrip with pools := [⟨atom, atom, 7⟩] }

open Simulation in
theorem validate_degenerateGenesis :
    degenerateGenesis.validate = .error (.genesis (.poolEntry atom atom)) := by decide +kernel

open Simulation in
/-- Into a store in use another document is imported completely, and a degenerate one not at all. -/
theorem store_all_or_nothing_again :
    ∃ s t e, (routeGenesis (tight 10) roundTrip).store.perform Store.empty = (.ok (), s)
      ∧ (routeGenesis (tight 5) roundTrip).store.perform s = (.ok (), t)
      ∧ Imported (routeGenesis (tight 5) roundTrip) s.get t.get
      ∧ degenerateGenesis.store.perform s = (.error e, s) := by
  have hagain : (routeGenesis (tight 5) roundTrip).validate = .ok () := by decide +kernel
  obtain ⟨s, hs⟩ := (store_all_or_nothing (routeGenesis (tight 10) roundTrip) Store.empty).1.2
    validate_roundTripGenesis
  obtain ⟨haccepted, -, himported, -⟩ := store_all_or_nothing (routeGenesis (tight 5) roundTrip) s
  obtain ⟨t, ht⟩ := haccepted.2 hagain
  obtain ⟨hiff, hrefused, -, -⟩ := store_all_or_nothing degenerateGenesis s
  rcases hstore : degenerateGenesis.store.perform s with ⟨e | ⟨⟩, u⟩
  · rw [(hrefused e u hstore).1] at hstore
    exact ⟨s, t, e, hs, ht, (himported t ht).1, hstore⟩
  · have hvalid := hiff.1 ⟨u, hstore⟩
    rw [validate_degenerateGenesis] at hvalid
    cases hvalid

end Genesis

end Backrun
