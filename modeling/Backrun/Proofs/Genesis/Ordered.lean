import Backrun.Proofs.Genesis.Restart
import Backrun.Proofs.Store.Order

/-!
# The order of an export

An export lists routes, pools, fees and profits in key order, whatever order they were
imported in.  So an import forgets the order of these four lists and nothing else.

* `Ordered` — the four lists are in key order.
* `Rearranged` — two documents differ in the order of these lists only.  They leave the
  very same store.
* `inOrder` — the one rearrangement in order, which is what an export gives back.
-/

namespace Backrun

/-- The denominations of a registered pair. -/
def PairRoutes.denoms (entry : PairRoutes) : Denom × Denom :=
  (entry.pair.tokenA, entry.pair.tokenB)

/-- The denominations between which an indexed pool trades, the base one first. -/
def PoolEntry.denoms (e : PoolEntry) : Denom × Denom := (e.base, e.counter)

namespace Genesis

variable {g g' : Genesis} {s : Store} {v : View}

/-! ## Documents by the order of their lists -/

/-- Routes are in the order of their pairs, pools in that of their bases and counters, fees
and profits in that of their denominations. -/
structure Ordered (g : Genesis) : Prop where
  routes : g.routes.Pairwise fun x y => Denom.PairBefore x.denoms y.denoms
  pools : g.pools.Pairwise fun x y => Denom.PairBefore x.denoms y.denoms
  fees : g.fees.Pairwise fun x y => x.denom.Before y.denom
  profits : g.profits.Pairwise fun x y => x.denom.Before y.denom

/-- The documents differ in the order of routes, pools, fees and profits only. -/
structure Rearranged (g g' : Genesis) : Prop where
  config : g'.config = g.config
  routes : g.routes.Perm g'.routes
  bases : g'.bases = g.bases
  pools : g.pools.Perm g'.pools
  fees : g.fees.Perm g'.fees
  counter : g'.counter = g.counter
  time : g'.time = g.time
  trades : g'.trades = g.trades
  profits : g.profits.Perm g'.profits

/-- The document with these four lists in order. -/
def inOrder (g : Genesis) : Genesis :=
  { g with
    routes := sortedBy (fun x y => Denom.PairBefore x.denoms y.denoms) g.routes
    pools := sortedBy (fun x y => Denom.PairBefore x.denoms y.denoms) g.pools
    fees := sortedBy (fun x y => x.denom.Before y.denom) g.fees
    profits := sortedBy (fun x y => x.denom.Before y.denom) g.profits }

theorem Rearranged.symm (h : Rearranged g g') : Rearranged g' g :=
  ⟨h.config.symm, h.routes.symm, h.bases.symm, h.pools.symm, h.fees.symm, h.counter.symm,
    h.time.symm, h.trades.symm, h.profits.symm⟩

theorem rearranged_inOrder (g : Genesis) : Rearranged g g.inOrder :=
  ⟨rfl, (sortedBy_perm g.routes).symm, rfl, (sortedBy_perm g.pools).symm,
    (sortedBy_perm g.fees).symm, rfl, rfl, rfl, (sortedBy_perm g.profits).symm⟩

/-- A document is in order exactly if its lists ascend by key. -/
theorem ordered_iff : g.Ordered ↔
    (g.routes.Pairwise fun x y => Key.pairRoutes x.pair < Key.pairRoutes y.pair)
      ∧ (g.pools.Pairwise fun x y => Key.pool x.base x.counter < Key.pool y.base y.counter)
      ∧ (g.fees.Pairwise fun x y => Key.developerFees x.denom < Key.developerFees y.denom)
      ∧ g.profits.Pairwise fun x y => Key.profits x.denom < Key.profits y.denom := by
  simp only [Key.pairRoutes_lt_iff, Key.pool_lt_iff, Key.developerFees_lt_iff,
    Key.profits_lt_iff]
  exact ⟨fun h => ⟨h.routes, h.pools, h.fees, h.profits⟩, fun h => ⟨h.1, h.2.1, h.2.2.1, h.2.2.2⟩⟩

/-- A valid document has one entry for each key, so that sorting puts its lists in order. -/
theorem ordered_inOrder (hg : g.Valid) : g.inOrder.Ordered := by
  refine ordered_iff.2 ⟨?_, ?_, ?_, ?_⟩
  · exact ascending_sortedBy (fun x y => Key.pairRoutes_lt_iff.symm)
      (nodup_map_of_nodup hg.pairs Key.pairRoutes_injective)
  · refine ascending_sortedBy (fun x y => Key.pool_lt_iff.symm)
      (nodup_map_of_nodup hg.poolPairs fun h => ?_)
    exact Prod.ext (Key.pool_injective h).1 (Key.pool_injective h).2
  · exact ascending_sortedBy (fun x y => Key.developerFees_lt_iff.symm)
      (nodup_map_of_nodup hg.fees Key.developerFees_injective)
  · exact ascending_sortedBy (fun x y => Key.profits_lt_iff.symm)
      (nodup_map_of_nodup hg.profits Key.profits_injective)

/-- Only one rearrangement of a document is in order. -/
theorem Rearranged.eq_of_ordered (h : Rearranged g g') (hg : g.Ordered) (hg' : g'.Ordered) :
    g' = g := by
  obtain ⟨hroutes, hpools, hfees, hprofits⟩ := ordered_iff.1 hg
  obtain ⟨hroutes', hpools', hfees', hprofits'⟩ := ordered_iff.1 hg'
  have hsameRoutes := eq_of_perm_of_ascending h.symm.routes hroutes' hroutes
  have hsamePools := eq_of_perm_of_ascending h.symm.pools hpools' hpools
  have hsameFees := eq_of_perm_of_ascending h.symm.fees hfees' hfees
  have hsameProfits := eq_of_perm_of_ascending h.symm.profits hprofits' hprofits
  cases g
  cases g'
  rw [Genesis.mk.injEq]
  exact ⟨h.config, hsameRoutes, h.bases, hsamePools, hsameFees, h.counter, h.time, h.trades,
    hsameProfits⟩

/-! ## Views do not tell the order -/

/-- What holds a document holds every rearrangement of it. -/
theorem Holds.rearrange (h : Holds v g) (heq : Rearranged g g') : Holds v g' where
  config := heq.config ▸ h.config
  counter := heq.counter ▸ h.counter
  time := heq.time ▸ h.time
  routes := h.routes.perm heq.routes
  bases := heq.bases ▸ h.bases
  pools := h.pools.perm heq.pools
  fees := h.fees.perm heq.fees
  trades := heq.trades ▸ h.trades
  profits := h.profits.perm heq.profits

/-- The check of a document does not depend on the order. -/
theorem Valid.rearrange (hg : g.Valid) (h : Rearranged g g') : g'.Valid := by
  have hbooked : ∀ d, g'.booked d = g.booked d := by
    -- What is booked can be read off a view that holds both documents.
    obtain ⟨t, bases, -, hholds, -, -⟩ := perform_store hg Store.empty fun _ _ => rfl
    have hrearranged : Rearranged { g with bases } { g' with bases } :=
      ⟨h.config, h.routes, rfl, h.pools, h.fees, h.counter, h.time, h.trades, h.profits⟩
    intro d
    exact ((hholds.rearrange hrearranged).earned_eq d).symm.trans (hholds.earned_eq d)
  exact {
    config := h.config ▸ hg.config
    bases := h.bases ▸ hg.bases
    routes := fun entry hentry => by
      rw [h.config]
      exact hg.routes entry (h.routes.mem_iff.2 hentry)
    pairs := (h.routes.map _).nodup_iff.1 hg.pairs
    pools := fun e he => hg.pools e (h.pools.mem_iff.2 he)
    poolPairs := (h.pools.map _).nodup_iff.1 hg.poolPairs
    fees := (h.fees.map _).nodup_iff.1 hg.fees
    profits := (h.profits.map _).nodup_iff.1 hg.profits
    earned := fun c hc => by
      rw [hbooked]
      exact hg.earned c (h.fees.mem_iff.2 hc)
    consumed := by
      rw [h.counter, h.config]
      exact hg.consumed }

/-- A store that holds a document in order is exported as that document. -/
theorem stored_of_holds (h : Holds s.get g) (hg : g.Valid) (hordered : g.Ordered) :
    stored s = .ok g := by
  obtain ⟨hroutes, hpools, hfees, hprofits⟩ := ordered_iff.1 hordered
  have hcoherent := h.coherent hg
  exact stored_of_parts hcoherent.budget.storedConfig_eq
    (h.routes.loadAll PairRoutes.faithful (fun _ => rfl) hroutes)
    (Registry.baseDenoms_of_listed h.bases)
    (h.pools.loadAll PoolEntry.faithful (fun _ => rfl) hpools)
    (h.fees.loadAll Coin.faithful (fun _ => rfl) hfees) hcoherent.budget.counter_eq
    (h.time.get List.mem_cons_self rfl) (h.trades.get List.mem_cons_self rfl)
    (h.profits.loadAll Coin.faithful (fun _ => rfl) hprofits)

/-! ## The written document -/

/-- A valid document is read back from what it is written as. -/
theorem faithful (hg : g.Valid) : Codec.Faithful g :=
  settles.faithful (settled_eq_self.2 (EngineConfig.settled_of_valid hg.config))

/-! ## Round trips -/

/-- A valid document leaves, in an empty store, a store without branches that holds it. -/
theorem perform_store_empty (hg : g.Valid) (hlength : g.bases.length ≤ UInt64.size) :
    ∃ t, g.store.perform Store.empty = (.ok (), t) ∧ t.branches = [] ∧ Holds t.get g
      ∧ ∀ k, ¬ Key.IsEngine k → t.get k = none := by
  obtain ⟨t, bases, ht, hholds, -, hsame⟩ := perform_store hg Store.empty fun _ _ => rfl
  refine ⟨t, ht, ?_, ?_, fun k hk => frame_of_perform_store ht hk⟩
  · have hflat := staysFlat_stages g Store.empty rfl
    rw [← perform_store_of_valid hg, ht] at hflat
    exact hflat
  · rw [hsame hlength] at hholds
    exact hholds

/-- Documents that differ in the order of their lists leave the same store. -/
theorem perform_store_rearranged (hg : g.Valid) (hlength : g.bases.length ≤ UInt64.size)
    (h : Rearranged g g') :
    g'.store.perform Store.empty = g.store.perform Store.empty := by
  obtain ⟨t, ht, hflat, hholds, hothers⟩ := perform_store_empty hg hlength
  obtain ⟨t', ht', hflat', hholds', hothers'⟩ :=
    perform_store_empty (hg.rearrange h) (h.bases ▸ hlength)
  have hsame : t' = t := by
    refine Store.eq_of_flat hflat' hflat fun k => ?_
    by_cases hk : Key.IsEngine k
    · exact hholds'.unique (hholds.rearrange h) hk
    · rw [hothers k hk, hothers' k hk]
  rw [ht, ht', hsame]

/-- **Round trip up to order.**  An accepted document that is imported into an empty store is
exported as the same document with routes, pools, fees and profits in key order.  Every
rearrangement of the document is accepted and leaves the very same store.  Writing out the
export, reading it back and importing it leaves that store again.

A list in memory has no more members than a word counts, which is what `hlength` says. -/
theorem export_inOrder (hg : g.validate = .ok ()) (hlength : g.bases.length ≤ UInt64.size) :
    ∃ t, g.store.perform Store.empty = (.ok (), t) ∧ stored t = .ok g.inOrder
      ∧ g.inOrder.Ordered ∧ Rearranged g g.inOrder
      ∧ (stored t = .ok g ↔ g.Ordered)
      ∧ (∀ g', Rearranged g g' →
        g'.validate = .ok () ∧ g'.store.perform Store.empty = (.ok (), t))
      ∧ ∃ doc : Genesis, Codec.decode? (Codec.encode g.inOrder) = some doc ∧ doc = g.inOrder
        ∧ doc.store.perform Store.empty = (.ok (), t) := by
  have hvalid := validate_ok.1 hg
  have hordered := ordered_inOrder hvalid
  have hrearranged := rearranged_inOrder g
  obtain ⟨t, ht, -, hholds, -⟩ := perform_store_empty hvalid hlength
  have hstored : stored t = .ok g.inOrder :=
    stored_of_holds (hholds.rearrange hrearranged) (hvalid.rearrange hrearranged) hordered
  have hall : ∀ g', Rearranged g g' →
      g'.validate = .ok () ∧ g'.store.perform Store.empty = (.ok (), t) := fun g' h =>
    ⟨validate_ok.2 (hvalid.rearrange h), (perform_store_rearranged hvalid hlength h).trans ht⟩
  refine ⟨t, ht, hstored, hordered, hrearranged, ⟨fun h => ?_, fun h => ?_⟩, hall, g.inOrder,
    Codec.decode?_encode (faithful (hvalid.rearrange hrearranged)), rfl, (hall _ hrearranged).2⟩
  · rw [hstored] at h
    exact Except.ok.inj h ▸ hordered
  · rw [hstored, hrearranged.eq_of_ordered h hordered]

open Simulation in
/-- A document with pools, fees and profits out of order. -/
def shuffled : Genesis :=
  { routeGenesis (tight 10) roundTrip with
    pools := [⟨atomic, osmo, 4⟩, ⟨atom, osmo, 3⟩]
    fees := [⟨osmo, 1⟩, ⟨atom, 3⟩]
    profits := [⟨osmo, 5⟩, ⟨atom, 7⟩] }

open Simulation in
/-- The export puts the lists in order, and its import leaves the store of the first one. -/
theorem export_inOrder_shuffled :
    ∃ t, shuffled.store.perform Store.empty = (.ok (), t)
      ∧ stored t = .ok { routeGenesis (tight 10) roundTrip with
          pools := [⟨atom, osmo, 3⟩, ⟨atomic, osmo, 4⟩]
          fees := [⟨atom, 3⟩, ⟨osmo, 1⟩]
          profits := [⟨atom, 7⟩, ⟨osmo, 5⟩] }
      ∧ ¬ shuffled.Ordered ∧ shuffled.inOrder.store.perform Store.empty = (.ok (), t) := by
  have hsorted : shuffled.inOrder = { routeGenesis (tight 10) roundTrip with
      pools := [⟨atom, osmo, 3⟩, ⟨atomic, osmo, 4⟩]
      fees := [⟨atom, 3⟩, ⟨osmo, 1⟩]
      profits := [⟨atom, 7⟩, ⟨osmo, 5⟩] } := by decide +kernel
  obtain ⟨t, ht, hstored, hordered, hrearranged, hiff, -, doc, -, rfl, hagain⟩ :=
    export_inOrder (g := shuffled) (by decide +kernel) (by decide)
  refine ⟨t, ht, hsorted ▸ hstored, fun h => ?_, hagain⟩
  -- The first pool of the document is not the first one of the export.
  have hsame : shuffled.inOrder = shuffled := hrearranged.eq_of_ordered h hordered
  exact absurd (congrArg (fun g : Genesis => g.pools) hsame) (by decide +kernel)

end Genesis

end Backrun
