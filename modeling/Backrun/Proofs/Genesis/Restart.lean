import Backrun.Proofs.Engine.Coherent
import Backrun.Proofs.Genesis.Import
import Backrun.Proofs.Simulation.Generous
import Backrun.Proofs.Simulation.Outside

/-!
# Restarting from an export

Coherent views and valid documents are two forms of the same state.  A view that holds a
valid document is coherent, and a coherent store can be exported as a valid document that
it holds.  So whatever has happened since genesis, the export can be imported again, and
the engine finds the very records that it left.
-/

namespace Backrun.Genesis

variable {s t : Store} {v : View} {g : Genesis} {config : EngineConfig} {counted : PointCounter}

/-! ## From documents to coherent views -/

/-- The profits in a view are those that the document books. -/
theorem Holds.earned_eq (h : Holds v g) (d : Denom) : Ledger.earned v d = g.booked d := by
  rw [Ledger.earned, booked]
  cases hfind : g.profits.find? fun c => c.denom == d with
  | some c =>
      have hdenom : c.denom = d := by simpa using List.find?_some hfind
      have hget := h.profits.get (List.mem_of_find?_eq_some hfind) (Key.kind_profits _)
      rw [hdenom] at hget
      exact Ledger.amountAt_of_coin hget
  | none =>
      refine Ledger.amountAt_of_none ?_
      cases hget : v (Key.profits d) with
      | none => rfl
      | some b =>
          obtain ⟨c, hc, hkey, -⟩ := (h.profits _ b (Key.kind_profits d)).1 hget
          have hnone := List.find?_eq_none.1 hfind c hc
          exact absurd (Key.profits_injective hkey).symm (by simpa using hnone)

/-- The fees in a view are those of the document. -/
theorem Holds.owed_eq (h : Holds v g) {d : Denom} :
    (∃ c ∈ g.fees, c.denom = d ∧ Ledger.owed v d = c.amount) ∨ Ledger.owed v d = 0 := by
  cases hget : v (Key.developerFees d) with
  | none => exact .inr (Ledger.amountAt_of_none hget)
  | some b =>
      obtain ⟨c, hc, hkey, hencode⟩ := (h.fees _ b (Key.kind_developerFees d)).1 hget
      rw [hencode] at hget
      exact .inl ⟨c, hc, (Key.developerFees_injective hkey).symm, Ledger.amountAt_of_coin hget⟩

/-- A view that holds a valid document is coherent. -/
theorem Holds.coherent (h : Holds v g) (hg : g.Valid) : Coherent v g.config g.counter where
  budget := {
    holdsConfig := h.config.get List.mem_cons_self rfl
    valid := hg.config
    holdsCounter := h.counter.get List.mem_cons_self rfl
    within := hg.consumed
    onlyConfig := fun k b hk hb => by
      obtain ⟨_, -, hkey, -⟩ := (h.config k b hk).1 hb
      exact hkey
    onlyCounter := fun k b hk hb => by
      obtain ⟨_, -, hkey, -⟩ := (h.counter k b hk).1 hb
      exact hkey }
  registry := ⟨h.routes.filed hg.routes, ⟨g.bases, h.bases, hg.bases⟩, h.pools.filed hg.pools⟩
  books := {
    dated := {
      time := ⟨g.time, h.time.get List.mem_cons_self rfl⟩
      trades := ⟨g.trades, h.trades.get List.mem_cons_self rfl⟩
      onlyTime := fun k b hk hb => by
        obtain ⟨_, -, hkey, -⟩ := (h.time k b hk).1 hb
        exact hkey
      onlyTrades := fun k b hk hb => by
        obtain ⟨_, -, hkey, -⟩ := (h.trades k b hk).1 hb
        exact hkey }
    fees := h.fees.filed fun _ _ => trivial
    profits := h.profits.filed fun _ _ => trivial
    covered := fun d => by
      rw [h.earned_eq d]
      rcases h.owed_eq (d := d) with ⟨c, hc, rfl, howed⟩ | hzero
      · rw [howed]
        exact hg.earned c hc
      · rw [hzero, Amount.le_iff]
        exact Nat.zero_le _ }

/-- An import into an empty store leaves a coherent one. -/
theorem coherent_of_perform_store {s₀ : Store}
    (h : g.store.perform Store.empty = (.ok (), s₀)) : Coherent s₀.get g.config g.counter := by
  have hg := valid_of_perform_store h
  obtain ⟨s₁, bases, hstore, hholds, hsound, -⟩ := perform_store hg Store.empty fun _ _ => rfl
  rw [h] at hstore
  cases hstore
  exact hholds.coherent (g := { g with bases }) { hg with bases := hsound }

/-! ## From coherent stores to documents -/

theorem kept_singleton {α : Type} [Codec α] {kind : UInt8} {key : Bytes} {a : α}
    (hget : v key = some (Codec.encode a))
    (honly : ∀ k b, Key.kind k = some kind → v k = some b → k = key) :
    Kept v kind (fun _ => key) [a] := by
  intro k b hk
  constructor
  · intro hb
    have hkey := honly k b hk hb
    rw [hkey, hget] at hb
    exact ⟨a, List.mem_cons_self, hkey, (Option.some.inj hb).symm⟩
  · rintro ⟨a', ha', hkey, hencode⟩
    rw [hkey, hencode, List.mem_singleton.1 ha']
    exact hget

/-- What an export reads, part by part. -/
theorem stored_of_parts {routes : List PairRoutes} {bases : List BaseDenom}
    {pools : List PoolEntry} {fees profits : List Coin} {time : Instant} {trades : UInt64}
    (hconfig : storedConfig s = .ok config) (hroutes : Registry.allRoutes s = .ok routes)
    (hbases : Registry.baseDenoms s = .ok bases) (hpools : Registry.allPools s = .ok pools)
    (hfees : Ledger.allFees s = .ok fees) (hcounter : Budget.counter s = .ok counted)
    (htime : s.get Key.genesisTime = some (Codec.encode time))
    (htrades : s.get Key.tradeCount = some (Codec.encode trades))
    (hprofits : Ledger.allProfits s = .ok profits) :
    stored s = .ok ⟨config, routes, bases, pools, fees, counted, time, trades, profits⟩ := by
  have hgenesis : Ledger.genesisTime s = .ok time :=
    Query.load_of_get (Instant.faithful time) htime _
  have hcount : Ledger.trades s = .ok trades := by
    rw [Ledger.trades, Query.bind_of_ok (Query.find_of_get (Codec.faithful_uint64 trades) htrades)]
    rfl
  rw [stored, Query.bind_of_ok hconfig, Query.bind_of_ok hroutes, Query.bind_of_ok hbases,
    Query.bind_of_ok hpools, Query.bind_of_ok hfees, Query.bind_of_ok hcounter,
    Query.bind_of_ok hgenesis, Query.bind_of_ok hcount, Query.bind_of_ok hprofits]
  rfl

/-- A coherent store can be exported, and the document is valid and held by the store. -/
theorem stored_of_coherent (h : Coherent s.get config counted) :
    ∃ g, stored s = .ok g ∧ g.Valid ∧ Holds s.get g ∧ g.config = config ∧ g.counter = counted := by
  -- Each kind of which every record is legible reads back as a list, in the order of its keys.
  obtain ⟨routes, hroutes, hadmissible, hpairs, hrouteKeys⟩ :=
    h.registry.routes.exists_list PairRoutes.faithful
  obtain ⟨bases, hlisted, hsound⟩ := h.registry.bases
  obtain ⟨pools, hpools, hproper, hpoolPairs, hpoolKeys⟩ :=
    h.registry.pools.exists_list PoolEntry.faithful
  obtain ⟨fees, hfees, -, hfeeDenoms, hfeeKeys⟩ := h.books.fees.exists_list Coin.faithful
  obtain ⟨profits, hprofits, -, hprofitDenoms, hprofitKeys⟩ :=
    h.books.profits.exists_list Coin.faithful
  obtain ⟨time, htime⟩ := h.books.dated.time
  obtain ⟨trades, htrades⟩ := h.books.dated.trades
  have hholds : Holds s.get
      ⟨config, routes, bases, pools, fees, counted, time, trades, profits⟩ :=
    { config := kept_singleton h.budget.holdsConfig h.budget.onlyConfig
      counter := kept_singleton h.budget.holdsCounter h.budget.onlyCounter
      time := kept_singleton htime h.books.dated.onlyTime
      routes := hrouteKeys
      bases := hlisted
      pools := hpoolKeys
      fees := hfeeKeys
      trades := kept_singleton htrades h.books.dated.onlyTrades
      profits := hprofitKeys }
  refine ⟨⟨config, routes, bases, pools, fees, counted, time, trades, profits⟩, ?_, ?_, hholds, rfl,
    rfl⟩
  · exact stored_of_parts h.budget.storedConfig_eq hroutes (Registry.baseDenoms_of_listed hlisted)
      hpools hfees h.budget.counter_eq htime htrades hprofits
  -- The check of the document repeats, part by part, what coherence says of the store.
  · have hcovered : ∀ c ∈ fees, c.amount
        ≤ Genesis.booked ⟨config, routes, bases, pools, fees, counted, time, trades, profits⟩
          c.denom := by
      intro c hc
      have howed : Ledger.owed s.get c.denom = c.amount :=
        Ledger.amountAt_of_coin (hholds.fees.get hc (Key.kind_developerFees _))
      rw [← hholds.earned_eq, ← howed]
      exact h.books.covered c.denom
    exact {
      config := h.budget.valid
      bases := hsound
      routes := hadmissible
      pairs := nodup_map_of_nodup hpairs fun hpair => by rw [hpair]
      pools := hproper
      poolPairs := nodup_map_of_nodup hpoolPairs fun hpair => by
        rw [(Prod.mk.inj hpair).1, (Prod.mk.inj hpair).2]
      fees := nodup_map_of_nodup hfeeDenoms fun hdenom => by rw [hdenom]
      profits := nodup_map_of_nodup hprofitDenoms fun hdenom => by rw [hdenom]
      earned := hcovered
      consumed := h.budget.within }

/-! ## Restarts -/

/-- From genesis on, whatever is asked of engines whose pools and banks stay outside: the
state can be exported, the document is valid, and its import into an empty store brings
back every record of the engine. -/
theorem export_restarts {g : Genesis} {s₀ : Store}
    (hgenesis : g.store.perform Store.empty = (.ok (), s₀)) {calls : List Call}
    (hout : ∀ c ∈ calls, c.engine.StaysOutside) :
    ∃ doc t, stored (Call.leaveAll calls s₀) = .ok doc
      ∧ doc.validate = .ok () ∧ doc.Valid ∧ doc.config.pointsPerTx ≤ doc.config.pointsPerBlock
      ∧ doc.store.perform Store.empty = (.ok (), t)
      ∧ ∀ b : UInt8, 0x01 ≤ b → b ≤ 0x09 → t.under [b] = (Call.leaveAll calls s₀).under [b] := by
  have hstart := coherent_of_perform_store hgenesis
  obtain ⟨config, counted, hend, -⟩ := hstart.leaveAll hout
  obtain ⟨doc, hdoc, hvalid, hheld, -, -⟩ := stored_of_coherent hend
  obtain ⟨t, bases', ht, hrestored, -, hsame⟩ := perform_store hvalid Store.empty fun _ _ => rfl
  -- A list that came out of a store is short enough to be stored as it stands.
  rw [hsame hheld.bases.short] at hrestored
  obtain ⟨-, -, hceilings, -⟩ := EngineConfig.validate_ok.1 hvalid.config
  refine ⟨doc, t, hdoc, validate_ok.2 hvalid, hvalid, hceilings, ht, fun b hlow hhigh => ?_⟩
  refine Store.under_congr fun k hk => ?_
  exact hrestored.unique hheld (Key.isEngine_of_kind (Key.singleton_prefix_iff.1 hk) hlow hhigh)

/-- An engine whose bank mints no atoms, among pools one of which returns less than it quotes. -/
def disturbedEngine : Engine :=
  let d : Simulation.Disturbance := ⟨[Simulation.atom], [], [], [], [(2, -1)]⟩
  ⟨d.market (Simulation.bonusPools [⟨1, .balancer, 1⟩, ⟨2, .balancer, 1⟩]),
    d.bank Simulation.bank, Simulation.generous.vault, Simulation.generous.authority⟩

/-- A run with an attempt among generous pools, a lower ceiling, and an attempt and a withdrawal
of a disturbed engine. -/
theorem export_restarts_roundTrip :
    ∃ s₀ calls doc t,
      (Simulation.routeGenesis (Simulation.tight 10) Simulation.roundTrip).store.perform Store.empty
        = (.ok (), s₀)
      ∧ calls = [Simulation.attempt ⟨10, .epoch⟩, Simulation.recap 5,
        ⟨disturbedEngine, .postTrade ⟨11, .epoch⟩ ⟨1, Simulation.atom, Simulation.osmo⟩⟩,
        ⟨disturbedEngine, .withdrawFees disturbedEngine.authority⟩]
      ∧ stored (Call.leaveAll calls s₀) = .ok doc ∧ doc.validate = .ok ()
      ∧ doc.store.perform Store.empty = (.ok (), t)
      ∧ ∀ b : UInt8, 0x01 ≤ b → b ≤ 0x09 → t.under [b] = (Call.leaveAll calls s₀).under [b] := by
  have hvalid := validate_ok.1 Simulation.validate_roundTripGenesis
  obtain ⟨s₀, -, hs₀, -⟩ := perform_store hvalid Store.empty fun _ _ => rfl
  have hdisturbed : disturbedEngine.StaysOutside := Simulation.disturbed_staysOutside _ _ _ _
  have hout : ∀ c ∈ [Simulation.attempt ⟨10, .epoch⟩, Simulation.recap 5,
      ⟨disturbedEngine, .postTrade ⟨11, .epoch⟩ ⟨1, Simulation.atom, Simulation.osmo⟩⟩,
      ⟨disturbedEngine, .withdrawFees disturbedEngine.authority⟩], c.engine.StaysOutside := by
    intro c hc
    simp only [List.mem_cons, List.not_mem_nil, or_false] at hc
    rcases hc with rfl | rfl | rfl | rfl
    · exact Simulation.generous_staysOutside
    · exact Simulation.generous_staysOutside
    · exact hdisturbed
    · exact hdisturbed
  obtain ⟨doc, t, hdoc, hvalid', -, -, ht, hsame⟩ := export_restarts hs₀ hout
  exact ⟨s₀, _, doc, t, hs₀, rfl, hdoc, hvalid', ht, hsame⟩

end Backrun.Genesis
