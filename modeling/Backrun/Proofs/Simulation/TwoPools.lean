import Backrun.Proofs.Simulation.BonusCycles
import Backrun.Proofs.Simulation.Modest

/-!
# Two pools out of step

In the near pool an atom buys almost a thousand osmo; in the far pool one is worth as much as
the other.  A round trip through both earns, and so does a route that never returns.
-/

namespace Backrun.Simulation

variable {s : Store} {a : Account} {config : EngineConfig}

/-- The pool in which an atom buys almost a thousand osmo. -/
def nearPool : Pool := ⟨.balancer, atom, 1000, osmo, 1000000⟩

/-- The pool in which both are worth the same. -/
def farPool : Pool := ⟨.balancer, osmo, 1000000, atom, 1000000⟩

/-- A store with the two pools. -/
def withPools (s : Store) : Store :=
  (s.set (poolKey 1) (Codec.encode nearPool)).set (poolKey 2) (Codec.encode farPool)

theorem loadPool_near (s : Store) : loadPool 1 (withPools s).get = .ok nearPool :=
  loadPool_of_get ((Store.get_set_of_ne _ _ (by decide)).trans (Store.get_set_self _ _ _))

theorem loadPool_far (s : Store) : loadPool 2 (withPools s).get = .ok farPool :=
  loadPool_of_get (Store.get_set_self _ _ _)

/-- The pools stand outside the keys of the engine. -/
theorem sameEngine_withPools (s : Store) : Store.SameEngine s (withPools s) := by
  intro k hk
  have hne : ∀ id, k ≠ poolKey id := fun id heq => poolKey_outside id (heq ▸ hk)
  rw [withPools, Store.get_set_of_ne _ _ (hne 2), Store.get_set_of_ne _ _ (hne 1)]

theorem trades_near (s : Store) : Trades ⟨1, atom, osmo⟩ 1000 1000000 (withPools s).get :=
  ⟨nearPool, loadPool_near s, nearPool.reserves_forth rfl rfl _⟩

theorem trades_far (s : Store) : Trades ⟨2, osmo, atom⟩ 1000000 1000000 (withPools s).get :=
  ⟨farPool, loadPool_far s, farPool.reserves_forth rfl rfl _⟩

theorem balance_withPools (s : Store) (a : Account) (d : Denom) :
    balance a d (withPools s).get = balance a d s.get := by
  refine balance_congr ?_
  rw [withPools, Store.get_set_of_ne _ _ (poolKey_ne_balanceKey 2 a d).symm,
    Store.get_set_of_ne _ _ (poolKey_ne_balanceKey 1 a d).symm]

/-- Over a store without pools and balances the amounts are modest. -/
theorem modest_withPools (hpools : ∀ id, s.get (poolKey id) = none)
    (hbalances : ∀ d, balance a d s.get = 0) : Modest a 1000000 (withPools s).get where
  balances d := by
    rw [balance_withPools, hbalances]
    exact Nat.zero_le _
  reserves id p hp := by
    by_cases hfar : id = 2
    · rw [hfar, loadPool_far] at hp
      rw [← Except.ok.inj hp]
      decide
    · by_cases hnear : id = 1
      · rw [hnear, loadPool_near] at hp
        rw [← Except.ok.inj hp]
        decide
      · have hnone : (withPools s).get (poolKey id) = none := by
          rw [withPools, Store.get_set_of_ne _ _ fun heq => hfar (poolKey_injective heq),
            Store.get_set_of_ne _ _ fun heq => hnear (poolKey_injective heq), hpools]
        rw [loadPool, hnone] at hp
        cases hp

section SinceGenesis

variable {g : Genesis} {s₀ : Store} (hgenesis : g.store.perform Store.empty = (.ok (), s₀))
  (hsince : Store.SameOutside s₀ s)

include hgenesis hsince

/-- Since a genesis there is no balance, whatever else the engine has written. -/
theorem balance_sinceGenesis (a : Account) (d : Denom) : balance a d s.get = 0 :=
  (balance_congr (hsince _ (balanceKey_outside a d))).trans (balance_of_import hgenesis a d)

/-- So with the two pools the amounts are modest. -/
theorem modest_sinceGenesis (a : Account) : Modest a 1000000 (withPools s).get := by
  refine modest_withPools (fun id => ?_) (balance_sinceGenesis hgenesis hsince a)
  rw [hsince _ (poolKey_outside id), Genesis.frame_of_perform_store hgenesis (poolKey_outside id)]
  rfl

end SinceGenesis

/-- After a genesis with one route, and with the two pools, all that is left to look at is the
route. -/
theorem exists_placed {r : Route} (hvalid : (routeGenesis config r).validate = .ok ()) :
    ∃ s, (routeGenesis config r).store.perform Store.empty = (.ok (), s)
      ∧ Coherent (withPools s).get config .zero ∧ OnlyRoute r s.get
      ∧ Ledger.earned (withPools s).get atom = 0 ∧ ∀ a, Modest a 1000000 (withPools s).get := by
  obtain ⟨s, hgenesis, hcoherent, honly, hnothing⟩ := exists_onlyRoute hvalid
  have hsame := sameEngine_withPools s
  have hprofits := hsame _ (Key.isEngine_of_kind (Key.kind_profits atom))
  exact ⟨s, hgenesis, hcoherent.congr hsame, honly, (Ledger.amountAt_congr hprofits).trans hnothing,
    modest_sinceGenesis hgenesis (.refl s)⟩

/-! ## Prices -/

/-- Both pools are of one family. -/
theorem hopCost_withPools {hop : Hop} (hpool : hop.poolId = 1 ∨ hop.poolId = 2)
    (hweight : config.weights.weight? .balancer = some 2) (frozen : List PoolId) (s : Store) :
    Budget.hopCost config (constantProduct frozen) hop (withPools s) = .ok 2 := by
  have hfamily : (constantProduct frozen).poolType hop.poolId (withPools s).get
      = .ok .balancer := by
    rcases hpool with hnear | hfar
    · rw [hnear]
      exact Verdict.bind_ok.2 ⟨nearPool, loadPool_near s, rfl⟩
    · rw [hfar]
      exact Verdict.bind_ok.2 ⟨farPool, loadPool_far s, rfl⟩
  rw [Budget.hopCost, Query.bind_of_ok (Verdict.mapError_ok.2 hfamily)]
  rw [hweight]
  rfl

theorem cost_withPools {r : Route} (hpools : ∀ hop ∈ r.hops, hop.poolId = 1 ∨ hop.poolId = 2)
    (hweight : config.weights.weight? .balancer = some 2) (frozen : List PoolId) (s : Store) :
    Budget.cost config (constantProduct frozen) r (withPools s)
      = .ok (r.hops.foldl (fun cost _ => Points.plus cost 2) config.search.overhead) := by
  rw [Budget.cost]
  generalize config.search.overhead = start
  generalize r.hops = hops at hpools
  induction hops generalizing start with
  | nil => rfl
  | cons hop rest ih =>
      obtain ⟨hfirst, hrest⟩ := List.forall_mem_cons.1 hpools
      rw [Budget.hopsCost, Query.bind_of_ok (hopCost_withPools hfirst hweight frozen s)]
      exact ih (Points.plus start 2) hrest

/-- A search finds the only route with an input of one, if that fits the budget and earns. -/
theorem found_withPools {c : Candidate} {budget : BudgetState} {frozen : List PoolId}
    (honly : OnlyRoute c.route s.get) (hdecodes : Decodes (withPools s).get)
    (hbudget : Budget.state (withPools s) = .ok budget) (henabled : config.enabled = true)
    (hindex : config.search.liquidityCycles = false) (hsteps : config.search.mostSteps = 1)
    (hweight : config.weights.weight? .balancer = some 2)
    (hc : c.toProposal = ⟨c.route, .registered, 0, 0⟩) (hstart : c.route.base? = some atom)
    (hpools : ∀ hop ∈ c.route.hops, hop.poolId = 1 ∨ hop.poolId = 2)
    (hcost : c.route.hops.foldl (fun cost _ => Points.plus cost 2) config.search.overhead = c.cost)
    (hquotes : Route.quoteHops (constantProduct frozen) 1 c.route.hops (withPools s)
      = .ok c.quote.outputs)
    (hquote : c.quote = ⟨1, c.quote.outputs, (c.quote.outputs.getLastD 1).saturatingSub 1⟩)
    (hleft : budget.remaining ≠ 0) (havailable : c.cost ≤ min budget.pointsPerTx budget.remaining)
    (hearns : c.quote.profit ≠ 0) :
    Search.run config (constantProduct frozen) ⟨1, atom, osmo⟩ (withPools s) = .ok (.found c) := by
  have honly' := honly.congr fun k hk => sameEngine_withPools s k hk.isEngine
  have hone : (1 : Amount).times 1 = 1 := by decide
  refine honly'.found hdecodes.registry hbudget henabled hindex hstart hc
    ⟨?_, havailable, ?_⟩ hleft hearns
  · rw [cost_withPools hpools hweight frozen s, hcost]
  · rw [Route.size_of_single hsteps (by rw [hone]; exact hquotes), hone, ← hquote]

/-! ## Routes -/

theorem quote_near (x : Amount) (s : Store) :
    quotePool ⟨1, atom, osmo⟩ x (withPools s).get = .ok (payout x 1000 1000000) :=
  quotePool_ok.2 ⟨_, _, trades_near s, rfl⟩

theorem quote_far (x : Amount) (s : Store) :
    quotePool ⟨2, osmo, atom⟩ x (withPools s).get = .ok (payout x 1000000 1000000) :=
  quotePool_ok.2 ⟨_, _, trades_far s, rfl⟩

/-- The round trip as a search with a step of one prices it at the two pools. -/
def gapCandidate : Candidate := { roundTripCandidate with quote := ⟨1, [996, 992], 991⟩ }

theorem gap_quotes (frozen : List PoolId) (s : Store) :
    Route.quoteHops (constantProduct frozen) 1 roundTrip.hops (withPools s) = .ok [996, 992] := by
  refine Route.quoteHops_cons_ok.2 ⟨996, [992], ?_, ?_, rfl⟩
  · exact (quote_near 1 s).trans (congrArg Except.ok (by decide))
  · refine Route.quoteHops_cons_ok.2 ⟨992, [], ?_, rfl, rfl⟩
    exact (quote_far 996 s).trans (congrArg Except.ok (by decide))

/-- A route that ends where the round trip turns. -/
def oneWay : Route := ⟨[⟨1, atom, osmo⟩]⟩

/-- The way there as a search with a step of one prices it. -/
def oneWayCandidate : Candidate :=
  { roundTripCandidate with route := oneWay, quote := ⟨1, [996], 995⟩, cost := 3 }

theorem oneWay_quotes (frozen : List PoolId) (s : Store) :
    Route.quoteHops (constantProduct frozen) 1 oneWay.hops (withPools s) = .ok [996] :=
  Route.quoteHops_cons_ok.2
    ⟨996, [], (quote_near 1 s).trans (congrArg Except.ok (by decide)), rfl, rfl⟩

theorem oneWay_leads : Route.Leads atom oneWay.hops osmo :=
  .hop (h := ⟨1, atom, osmo⟩) (by decide) (.here osmo)

end Backrun.Simulation
