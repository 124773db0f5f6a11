import Backrun.Proofs.Cycle.Recorded
import Backrun.Proofs.Cycle.Search

/-!
# Stores that can be read

`Decodes` only asks that the bytes of every record can be read: the budget may be overspent, a
route need not be a cycle, and a coin may lie under the key of another denomination.  That is
enough for the engine to get through all stages of a cycle that fits the budget
(`Decodes.executeFrom_of_calls`): the stages look at the configuration, the counter, the genesis
time and the books of one denomination, and none of them at the registry.
-/

namespace Backrun

/-- Every record of the engine can be read. -/
structure Decodes (v : View) : Prop where
  registry : Registry.Readable v
  config : Legible EngineConfig v 0x04
  counter : Legible PointCounter v 0x05
  fees : Legible Coin v 0x06
  time : Legible Instant v 0x07
  trades : Legible UInt64 v 0x08
  profits : Legible Coin v 0x09

/-- Whether a profit fits into the books depends on four records. -/
theorem Ledger.Bookable.congr {now : Instant} {profit : Coin} {s t : Store}
    (h : Bookable now profit s) (hconfig : t.get Key.config = s.get Key.config)
    (htime : t.get Key.genesisTime = s.get Key.genesisTime)
    (hfees : t.get (Key.developerFees profit.denom) = s.get (Key.developerFees profit.denom))
    (hprofits : t.get (Key.profits profit.denom) = s.get (Key.profits profit.denom)) :
    Bookable now profit t where
  profits := by
    rw [earned, amountAt_congr hprofits]
    exact h.profits
  fees config days hstored hdays := by
    rw [owed, amountAt_congr hfees]
    exact h.fees config days ((Query.load_congr hconfig _).symm.trans hstored)
      ((daysSinceGenesis_congr htime now).symm.trans hdays)

namespace Decodes

variable {v w : View} {s : Store} {e : Engine} {best : Candidate}

theorem congr (h : Decodes v) (heq : ∀ k, Key.IsEngine k → w k = v k) : Decodes w where
  registry :=
    ⟨h.registry.routes.congr fun k hk => heq k (Key.isEngine_of_kind hk),
      h.registry.bases.congr fun k hk => heq k (Key.isEngine_of_kind hk),
      h.registry.pools.congr fun k hk => heq k (Key.isEngine_of_kind hk)⟩
  config := h.config.congr fun k hk => heq k (Key.isEngine_of_kind hk)
  counter := h.counter.congr fun k hk => heq k (Key.isEngine_of_kind hk)
  fees := h.fees.congr fun k hk => heq k (Key.isEngine_of_kind hk)
  time := h.time.congr fun k hk => heq k (Key.isEngine_of_kind hk)
  trades := h.trades.congr fun k hk => heq k (Key.isEngine_of_kind hk)
  profits := h.profits.congr fun k hk => heq k (Key.isEngine_of_kind hk)

/-- Any routes may be put under a pair, cycles or not. -/
theorem setRoutes (h : Decodes s.get) (pair : DenomPair) (entry : PairRoutes) :
    Decodes (s.set (Key.pairRoutes pair) (Codec.encode entry)).get := by
  have hother : ∀ {kind : UInt8}, kind ≠ 0x01 → ∀ k, Key.kind k = some kind →
      (s.set (Key.pairRoutes pair) (Codec.encode entry)).get k = s.get k :=
    fun hne k hk => Store.get_set_of_ne s _ (Key.ne_of_kind (Key.kind_ne hk hne))
  refine ⟨⟨h.registry.routes.set fun _ => ⟨entry, ?_⟩, ?_, ?_⟩, ?_, ?_, ?_, ?_, ?_, ?_⟩
  · exact Codec.decode?_encode (PairRoutes.faithful entry)
  · exact h.registry.bases.congr (hother (by decide))
  · exact h.registry.pools.congr (hother (by decide))
  · exact h.config.congr (hother (by decide))
  · exact h.counter.congr (hother (by decide))
  · exact h.fees.congr (hother (by decide))
  · exact h.time.congr (hother (by decide))
  · exact h.trades.congr (hother (by decide))
  · exact h.profits.congr (hother (by decide))

theorem exists_genesisTime (h : Decodes s.get) (hgenesis : s.get Key.genesisTime ≠ none) :
    ∃ time, Ledger.genesisTime s = .ok time := by
  obtain ⟨b, hb⟩ := Option.ne_none_iff_exists'.1 hgenesis
  obtain ⟨time, htime⟩ := h.time _ b Key.kind_genesisTime hb
  exact ⟨time, Query.load_ok.2 ⟨b, hb, htime⟩⟩

/-- A profit that fits is booked and its trade counted, also after the calls to those outside,
when of the records only the counter of the budget has changed. -/
theorem exists_recorded (h : Decodes s.get) (hgenesis : s.get Key.genesisTime ≠ none)
    {config : EngineConfig} (hconfig : storedConfig s = .ok config) {now : Instant} {profit : Coin}
    (hfits : Ledger.Bookable now profit s) {u : Store}
    (hsame : ∀ k, Key.IsEngine k → Key.kind k ≠ some 0x05 → u.get k = s.get k) :
    ∃ split booked count t, (Ledger.book now profit).perform u = (.ok split, booked)
      ∧ Ledger.countTrade.perform booked = (.ok count, t) := by
  have hkind : ∀ {kind : UInt8}, 0x01 ≤ kind → kind ≤ 0x09 → kind ≠ 0x05 →
      ∀ k, Key.kind k = some kind → u.get k = s.get k :=
    fun hlow hhigh hne k hk => hsame k ⟨_, hlow, hhigh, hk⟩ (Key.kind_ne hk hne)
  obtain ⟨time, htime⟩ := h.exists_genesisTime hgenesis
  have hconfigKey : u.get Key.config = s.get Key.config :=
    hkind (by decide) (by decide) (by decide) _ Key.kind_config
  have htimeKey : u.get Key.genesisTime = s.get Key.genesisTime :=
    hkind (by decide) (by decide) (by decide) _ Key.kind_genesisTime
  have hfees := h.fees.congr (hkind (by decide) (by decide) (by decide))
  have hprofits := h.profits.congr (hkind (by decide) (by decide) (by decide))
  have hgenesisTime : Ledger.genesisTime u = .ok time :=
    (Query.load_congr htimeKey _).trans htime
  have hdays := Ledger.daysSinceGenesis_ok hgenesisTime now
  obtain ⟨split, booked, hbook⟩ := Ledger.book_of_bookable
    ((Query.load_congr hconfigKey _).trans hconfig) hdays hfees hprofits
    (hfits.congr hconfigKey htimeKey
      (hkind (by decide) (by decide) (by decide) _ (Key.kind_developerFees profit.denom))
      (hkind (by decide) (by decide) (by decide) _ (Key.kind_profits profit.denom)))
  have htrades : Legible UInt64 booked.get 0x08 := by
    refine (h.trades.congr (hkind (by decide) (by decide) (by decide))).congr fun k hk => ?_
    exact (Ledger.book_posts hbook).2 k
      (Key.ne_of_kind (Key.kind_ne hk)) (Key.ne_of_kind (Key.kind_ne hk))
  obtain ⟨count, counts, hcount⟩ := Ledger.countTrade_of_legible htrades
  exact ⟨split, booked, count, counts, hbook, hcount⟩

/-- A cycle that fits the budget and returns more than goes in goes through all of its stages,
where after the debit those outside do their part and the profit can be booked. -/
theorem executeFrom_of_calls (h : Decodes s.get) (hgenesis : s.get Key.genesisTime ≠ none)
    (block : Block) (hout : e.StaysOutside) {base : Denom} {output : Amount} {budget : BudgetState}
    (hcalls : ∀ debited, (Budget.tryConsume best.cost).perform s = (.ok (), debited) →
      ∃ minted swapped burned,
        (Action.call (e.bank.mint e.vault ⟨base, best.quote.input⟩) fun fault =>
            .executionFailure (.mint ⟨base, best.quote.input⟩ fault)).perform debited
          = (.ok (), minted)
        ∧ (Candidate.swapAll e.market e.vault best.quote.input
            (best.route.hops.zip best.quote.outputs)).perform minted = (.ok output, swapped)
        ∧ (Action.call (e.bank.burn e.vault ⟨base, best.quote.input⟩) fun fault =>
            .executionFailure (.burn ⟨base, best.quote.input⟩ fault)).perform swapped
          = (.ok (), burned))
    (hbudget : Budget.state s = .ok budget) (htx : best.cost ≤ budget.pointsPerTx)
    (hblock : best.cost ≤ budget.remaining) (hless : best.quote.input < output)
    (hfits : Ledger.Bookable block.time ⟨base, output - best.quote.input⟩ s) :
    ∃ split t, (best.executeFrom base e.market e.bank e.vault block).perform s
      = (.ok ⟨best.route, best.quote.input, output, ⟨base, output - best.quote.input⟩, split,
        best.cost⟩, t) := by
  -- The budget has room for the points, so the calls are made.
  have hdebit := (Budget.tryConsume_ok (u := ())).2 ⟨budget, hbudget, htx, hblock, rfl⟩
  obtain ⟨minted, swapped, burned, hmint, hswap, hburn⟩ := hcalls _ hdebit
  -- None of them has changed a record of the engine, and the debit only the counter.
  have houtside := Candidate.sameEngine_of_stages hout hmint hswap hburn
  obtain ⟨config, counted, hconfig, -, -⟩ := Budget.state_ok.1 hbudget
  obtain ⟨split, booked, count, t, hbook, hcount⟩ := h.exists_recorded hgenesis hconfig hfits
    fun k hk hne => (houtside k hk).trans (Store.get_set_of_ne s _ (Key.ne_of_kind hne))
  exact ⟨split, t, Candidate.executeFrom_ok.2 ⟨_, minted, swapped, burned, booked, output,
    split, count, hdebit, hmint, hswap, hless, hburn, hbook, hcount, rfl⟩⟩

end Decodes

namespace Coherent

variable {v : View} {config : EngineConfig} {counted : PointCounter}

theorem readable (h : Coherent v config counted) : Registry.Readable v where
  routes := h.registry.routes.legible fun entry => PairRoutes.faithful entry
  bases := by
    obtain ⟨bases, hlisted, -⟩ := h.registry.bases
    intro k b hkind hb
    obtain ⟨i, hi, rfl⟩ := hlisted.only k b hkind hb
    rw [hlisted.record i hi] at hb
    exact ⟨bases[i], by rw [← Option.some.inj hb, Codec.decode?_encode (BaseDenom.faithful _)]⟩
  pools := h.registry.pools.legible fun entry => PoolEntry.faithful entry

/-- What is in order can be read. -/
theorem decodes (h : Coherent v config counted) : Decodes v where
  registry := h.readable
  config := legible_of_only (EngineConfig.faithful h.budget.valid) h.budget.holdsConfig
    h.budget.onlyConfig
  counter := legible_of_only (PointCounter.faithful counted) h.budget.holdsCounter
    h.budget.onlyCounter
  fees := h.books.fees.legible Coin.faithful
  time := h.books.dated.legibleTime
  trades := h.books.dated.legibleTrades
  profits := h.books.profits.legible Coin.faithful

theorem genesisTime_ne_none {s : Store} (h : Coherent s.get config counted) :
    s.get Key.genesisTime ≠ none := by
  obtain ⟨time, htime⟩ := h.books.dated.time
  rw [htime]
  exact Option.some_ne_none _

end Coherent

end Backrun
