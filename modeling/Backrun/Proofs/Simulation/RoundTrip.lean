import Backrun.Proofs.Engine.Progress
import Backrun.Proofs.Genesis.Restart
import Backrun.Proofs.Simulation.Generous

/-!
# Round trips among generous pools

Where the round trip is all that is registered, every search with enough points finds it and
every attempt executes it.  `Turning` is the state between two attempts: it is there after
genesis, and both an attempt and a change of the ceiling for blocks keep it.
-/

namespace Backrun.Simulation

variable {s t : Store} {v w : View} {ceiling available : UInt64} {counted : PointCounter}
  {trades : Nat}

/-! ## The only route -/

/-- A view in which one route is all that is registered for the two denominations, and the
first of them is the only base denomination. -/
structure OnlyRoute (r : Route) (v : View) : Prop where
  routes : v (Key.pairRoutes ⟨atom, osmo⟩)
    = some (Codec.encode (⟨⟨atom, osmo⟩, [r]⟩ : PairRoutes))
  bases : Registry.Listed v [⟨atom, 1⟩]

namespace OnlyRoute

variable {r : Route} {config : EngineConfig}

theorem congr (h : OnlyRoute r v) (heq : ∀ k, Key.IsRegistry k → w k = v k) : OnlyRoute r w where
  routes := (heq _ (.inl (Key.kind_pairRoutes _))).trans h.routes
  bases := h.bases.congr fun k hk => heq k (.inr (.inl hk))

theorem registeredRoutes (h : OnlyRoute r s.get) :
    Search.registeredRoutes s.get atom osmo = [r] := by
  have hpair : DenomPair.canonical atom osmo = ⟨atom, osmo⟩ := by decide
  rw [Search.registeredRoutes, hpair, h.routes, Option.bind_some,
    Codec.decode?_encode (PairRoutes.faithful _)]

/-- If it starts in the base denomination it is in play, and nothing else is. -/
theorem inPlay_iff (h : OnlyRoute r s.get) (hindex : config.search.liquidityCycles = false)
    (hstart : r.base? = some atom) {p : Proposal} {b : BaseDenom} :
    Search.InPlay config ⟨1, atom, osmo⟩ s p b ↔ p = ⟨r, .registered, 0, 0⟩ ∧ b = ⟨atom, 1⟩ := by
  have hbases := Registry.baseDenoms_of_listed h.bases
  have hnone : Search.indexCycles config ⟨1, atom, osmo⟩ [⟨atom, 1⟩] s = .ok [] := by
    rw [Search.indexCycles, hindex]
    rfl
  constructor
  · rintro ⟨bases, cycles, hbases', hcycles, heligible⟩
    obtain rfl := Except.ok.inj (hbases.symm.trans hbases')
    obtain rfl := Except.ok.inj (hnone.symm.trans hcycles)
    rw [h.registeredRoutes] at heligible
    cases heligible with
    | @registered i j r' _ hroute hbase hposition hfirst =>
        obtain ⟨hi, rfl⟩ := List.getElem?_eq_some_iff.1 hroute
        obtain ⟨hj, rfl⟩ := List.getElem?_eq_some_iff.1 hposition
        rw [List.length_singleton, Nat.lt_one_iff] at hi hj
        subst hi hj
        exact ⟨rfl, rfl⟩
    | indexed hcycle => exact absurd hcycle List.not_mem_nil
  · rintro ⟨rfl, rfl⟩
    refine ⟨_, [], hbases, hnone, ?_⟩
    rw [h.registeredRoutes]
    exact .registered rfl hstart rfl fun _ _ hearlier _ => absurd hearlier (Nat.not_lt_zero _)

theorem priced (h : OnlyRoute r s.get) {market : Market} {c : Candidate}
    (hindex : config.search.liquidityCycles = false) (hstart : r.base? = some atom)
    (hc : c.toProposal = ⟨r, .registered, 0, 0⟩)
    (hpriced : Search.PricedFrom config market available s ⟨atom, 1⟩ c) :
    Search.Priced config market available s ⟨1, atom, osmo⟩ c :=
  ⟨_, (h.inPlay_iff hindex hstart).2 ⟨hc, rfl⟩, hpriced⟩

/-- A search finds it, as long as it fits the budget and earns. -/
theorem found (h : OnlyRoute r s.get) {market : Market} {budget : BudgetState} {c : Candidate}
    (hreadable : Registry.Readable s.get) (hbudget : Budget.state s = .ok budget)
    (henabled : config.enabled = true) (hindex : config.search.liquidityCycles = false)
    (hstart : r.base? = some atom) (hc : c.toProposal = ⟨r, .registered, 0, 0⟩)
    (hpriced : Search.PricedFrom config market (min budget.pointsPerTx budget.remaining) s
      ⟨atom, 1⟩ c) (hleft : budget.remaining ≠ 0) (hearns : c.quote.profit ≠ 0) :
    Search.run config market ⟨1, atom, osmo⟩ s = .ok (.found c) :=
  Search.run_of_only hreadable hbudget henabled hleft (h.priced hindex hstart hc hpriced) hearns
    fun _ _ hin => ((h.inPlay_iff hindex hstart).1 hin).1.trans hc.symm

end OnlyRoute

/-- The genesis of one route starts with that route and with empty books. -/
theorem exists_onlyRoute {config : EngineConfig} {r : Route}
    (hvalid : (routeGenesis config r).validate = .ok ()) :
    ∃ s, (routeGenesis config r).store.perform Store.empty = (.ok (), s)
      ∧ Coherent s.get config .zero ∧ OnlyRoute r s.get ∧ Ledger.earned s.get atom = 0 := by
  obtain ⟨s, bases, hs, hholds, -, hsame⟩ :=
    Genesis.perform_store (Genesis.validate_ok.1 hvalid) Store.empty fun _ _ => rfl
  obtain rfl := hsame (show 1 ≤ UInt64.size by decide)
  have hregistered : (⟨⟨atom, osmo⟩, [r]⟩ : PairRoutes) ∈ (routeGenesis config r).routes :=
    List.mem_cons_self
  have hroutes := hholds.routes.get hregistered (Key.kind_pairRoutes ⟨atom, osmo⟩)
  refine ⟨s, hs, Genesis.coherent_of_perform_store hs, ⟨?_, hholds.bases⟩, hholds.earned_eq atom⟩
  exact hroutes

/-- Generous pools price the round trip. -/
theorem roundTrip_pricedFrom (havailable : 5 ≤ available) :
    Search.PricedFrom (tight ceiling) generousPools available s ⟨atom, 1⟩ roundTripCandidate :=
  ⟨rfl, havailable, rfl⟩

/-! ## Turning -/

/-- A state with the round trip only, in which this many attempts may have earned from it. -/
structure Turning (s : Store) (ceiling : UInt64) (counted : PointCounter) (trades : Nat) :
    Prop where
  coherent : Coherent s.get (tight ceiling) counted
  only : OnlyRoute roundTrip s.get
  earned : (Ledger.earned s.get atom).toNat ≤ 2 * trades

/-- Genesis starts it. -/
theorem exists_turning (hvalid : (routeGenesis (tight ceiling) roundTrip).validate = .ok ()) :
    ∃ s, (routeGenesis (tight ceiling) roundTrip).store.perform Store.empty = (.ok (), s)
      ∧ Turning s ceiling .zero 0 := by
  obtain ⟨s, hs, hcoherent, honly, hnothing⟩ := exists_onlyRoute hvalid
  refine ⟨s, hs, hcoherent, honly, ?_⟩
  rw [hnothing]
  exact Nat.zero_le _

namespace Turning

/-- An attempt counts for its block before it searches. -/
theorem countedFor (h : Turning s ceiling counted trades) (block : Block) :
    Turning (Engine.countedFor block counted s) ceiling (counted.inBlock block) trades := by
  refine ⟨h.coherent.countedFor block,
    h.only.congr fun k hk => Engine.get_countedFor hk.kind_ne block counted s, ?_⟩
  have hprofits := Engine.get_countedFor (Key.kind_ne (Key.kind_profits atom)) block counted s
  rw [Ledger.earned, Ledger.amountAt_congr hprofits]
  exact h.earned

/-- With five points left a search finds the round trip, however the pools price it, as long as it
earns. -/
theorem found (h : Turning s ceiling counted trades) {market : Market} {c : Candidate}
    (hleft : counted.consumed.toNat + 5 ≤ ceiling.toNat)
    (hround : c.toProposal = roundTripCandidate.toProposal)
    (hpriced : ∀ available, 5 ≤ available →
      Search.PricedFrom (tight ceiling) market available s ⟨atom, 1⟩ c)
    (hearns : c.quote.profit ≠ 0) :
    Search.run (tight ceiling) market ⟨1, atom, osmo⟩ s = .ok (.found c) := by
  have hremaining : 5 ≤ BudgetState.remaining ⟨5, ceiling, counted.consumed, counted.height⟩ := by
    rw [UInt64.le_iff_toNat_le, BudgetState.toNat_remaining]
    show 5 ≤ ceiling.toNat - counted.consumed.toNat
    omega
  refine h.only.found h.coherent.readable h.coherent.budget.state_eq rfl rfl rfl hround
    (hpriced _ ?_) ?_ hearns
  · exact Std.le_min_iff.2 ⟨UInt64.le_refl 5, hremaining⟩
  · intro hzero
    exact absurd (hremaining.trans_eq hzero) (by decide)

/-- An attempt with five points left executes the round trip. -/
theorem exists_executed (h : Turning s ceiling counted trades) (block : Block)
    (hleft : (counted.inBlock block).consumed.toNat + 5 ≤ ceiling.toNat)
    (hfew : 2 * trades + 2 < Amount.bound) :
    ∃ done t, generous.postTrade block ⟨1, atom, osmo⟩ s = (.executed done, t)
      ∧ (roundTripCandidate.execute generous.market generous.bank generous.vault block).perform
        (Engine.countedFor block counted s) = (.ok done, t)
      ∧ done.points = 5 ∧ done.profit.amount = 2 := by
  obtain ⟨hcoherent, honly, hearned⟩ := h.countedFor block
  have hfound : Search.run (tight ceiling) generousPools ⟨1, atom, osmo⟩
      (Engine.countedFor block counted s) = .ok (.found roundTripCandidate) :=
    (h.countedFor block).found hleft rfl (fun _ hfive => roundTrip_pricedFrom hfive) (by decide)
  obtain ⟨done, t, hdone, hpoints, hprofit⟩ := hcoherent.execute_succeeds block
    generous_staysOutside generousPools_keepsQuotes freeBank_obliges hfound fun base hbase => by
      obtain rfl : atom = base := Option.some.inj hbase
      exact Nat.lt_of_le_of_lt (Nat.add_le_add_right hearned 2) hfew
  exact ⟨done, t, Engine.postTrade_of_executed _ _ _ _ h.coherent.budget.storedConfig_eq rfl
    h.coherent.budget.counter_eq hfound hdone, hdone, hpoints, hprofit⟩

/-- It turns the state into the next one. -/
theorem leave_attempt (h : Turning s ceiling counted trades) (block : Block)
    (hleft : (counted.inBlock block).consumed.toNat + 5 ≤ ceiling.toNat)
    (hfew : 2 * trades + 2 < Amount.bound) :
    ((attempt block).reply s).points = 5
      ∧ ∃ counted', Turning ((attempt block).leave s) ceiling counted' (trades + 1)
        ∧ counted'.height = (counted.inBlock block).height
        ∧ counted'.consumed.toNat = (counted.inBlock block).consumed.toNat + 5 := by
  obtain ⟨done, t, hpost, hdone, hpoints, hprofit⟩ := h.exists_executed block hleft hfew
  obtain ⟨hcoherent, honly, hearned⟩ := h.countedFor block
  obtain ⟨counted', hsettled, hbooks⟩ := hcoherent.execute generous_staysOutside hdone
  have hreply : (attempt block).reply s = .afterTrade (.executed done) :=
    congrArg (fun p : PostTrade × Store => Reply.afterTrade p.1) hpost
  have hleave : (attempt block).leave s = t := congrArg Prod.snd hpost
  have hspent : done.points.toNat = 5 := congrArg UInt64.toNat hpoints
  have hprofit : done.profit.amount.toNat = 2 := congrArg BitVec.toNat hprofit
  rw [hreply, hleave]
  refine ⟨hspent, counted', ⟨hsettled, ?_, ?_⟩, hbooks.height, ?_⟩
  · exact honly.congr fun k hk =>
      hbooks.frame k hk.isEngine hk.kind_ne hk.kind_ne hk.kind_ne hk.kind_ne
  · rw [hbooks.earned]
    split <;> omega
  · rw [hbooks.consumed, hspent]

/-- The authority may set every valid ceiling for blocks. -/
theorem leave_recap (h : Turning s ceiling counted trades) {other : UInt64}
    (hvalid : (tight other).validate = .ok ()) :
    ((recap other).reply s).points = 0
      ∧ Turning ((recap other).leave s) other (counted.clampedTo other) trades := by
  have hmay : Governance.authorize generous.authority generous.authority s = .ok () := by
    rw [Governance.authorize, Query.bind_of_ok h.coherent.budget.storedConfig_eq]
    rfl
  obtain ⟨t, hcap⟩ : ∃ t, Recapped other s t :=
    ⟨_, tight ceiling, counted, h.coherent.budget.storedConfig_eq, h.coherent.budget.counter_eq,
      hvalid, rfl⟩
  have hrun : (Governance.Change.action generous.authority generous.authority
      (.pointsPerBlock other)).perform s = (.ok (), t) :=
    Governance.setPointsPerBlock_ok.2 ⟨hmay, hcap⟩
  have hleave : (recap other).leave s = t := congrArg Prod.snd hrun
  rw [hleave]
  refine ⟨rfl, h.coherent.recapped hcap, ?_, ?_⟩
  · exact h.only.congr fun k hk => hcap.frame hk.kind_ne hk.kind_ne
  · have hkey := hcap.frame (k := Key.profits atom) (Key.kind_ne (Key.kind_profits _))
      (Key.kind_ne (Key.kind_profits _))
    rw [Ledger.earned, Ledger.amountAt_congr hkey]
    exact h.earned

end Turning

end Backrun.Simulation
