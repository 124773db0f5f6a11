import Backrun.Proofs.Budget.Cost
import Backrun.Proofs.Cycle.Sizing
import Backrun.Proofs.Engine.Attempts
import Backrun.Proofs.Simulation.QuotedCycles
import Backrun.Proofs.Simulation.RoundTrip

/-!
# Cycles that were committed

An executed cycle is what the search has promised, whatever the pools and the bank answer and
write in the meantime (`Candidate.HonouredBy`).

* The cycle is closed, short enough and starts in a base denomination, because nothing else is
  ever registered or made of the pool index.
* Its input is a multiple of the step of that denomination, because the size was searched for among
  the multiples.
* Every swap has returned at least what was quoted for it, because the execution compares the two.
* Its points are the overhead and the weights of all hops, and were left in the budget, because
  the search has summed them up and the debit was made first.
-/

namespace Backrun

open Simulation

/-- A trade that honours what a search in a store has promised of a candidate from a base
denomination. -/
structure Candidate.HonouredBy (e : Engine) (config : EngineConfig) (s : Store) (c : Candidate)
    (b : BaseDenom) (done : Trade) : Prop where
  route : done.route = c.route
  cycle : done.route.IsCycle config.search.mostHops
  base : done.route.base? = some b.denom
  multiple : ∃ m, 1 ≤ m ∧ m ≤ config.search.mostSteps.toNat ∧ done.input = b.stepSize.times m
  quotes : Route.quoteHops e.market done.input done.route.hops s = .ok c.quote.outputs
  /-- Behind the debit and the loan each swap is fed with the output of the one before it. -/
  swaps : ∃ outputs v w, c.StartsFrom e.bank e.vault b.denom s.openBranch v
    ∧ Returns e.market e.vault done.input done.route.hops outputs v w
    ∧ List.Forall₂ (· ≤ ·) c.quote.outputs outputs ∧ outputs.getLastD done.input = done.output
  earns : done.input < done.output
  denom : done.profit.denom = b.denom
  profit : done.input.toNat + done.profit.amount.toNat = done.output.toNat
  quoted : c.quote.profit ≤ done.profit.amount
  points : ∃ weights : List UInt64,
    List.Forall₂ (Budget.Weighs config e.market s) done.route.hops weights
    ∧ done.points.toNat = config.search.overhead.toNat + (weights.map UInt64.toNat).sum

namespace Coherent

variable {s t : Store} {config : EngineConfig} {counted : PointCounter} {e : Engine} {trade : Hop}
  {block : Block} {c : Candidate} {done : Trade}

/-- What is found costs the overhead and the weights of its hops. -/
theorem cost_of_found (h : Coherent s.get config counted) {market : Market}
    (hfound : Search.run config market trade s = .ok (.found c)) :
    ∃ weights : List UInt64, List.Forall₂ (Budget.Weighs config market s) c.route.hops weights
      ∧ c.cost.toNat = config.search.overhead.toNat + (weights.map UInt64.toNat).sum := by
  obtain ⟨⟨b, -, hpriced⟩, -⟩ := Search.priced_of_found h.readable h.budget.state_eq hfound
  -- What one transaction may spend is far below the end of the word.
  have hpromising := Search.promising_of_found h.readable h.budget.state_eq hfound
  have hmost := UInt64.le_trans hpromising.fitsTx (EngineConfig.pointsPerTx_le h.budget.valid)
  refine Budget.cost_ok hpriced.cost (Nat.lt_of_le_of_lt (UInt64.le_iff_toNat_le.1 hmost) ?_)
  decide

/-- The input of what is found is a multiple of the step of its base denomination. -/
theorem base_of_found (h : Coherent s.get config counted) {market : Market}
    (hfound : Search.run config market trade s = .ok (.found c)) :
    ∃ bases b, Registry.baseDenoms s = .ok bases ∧ b ∈ bases ∧ c.route.base? = some b.denom
      ∧ ∃ m, 1 ≤ m ∧ m ≤ config.search.mostSteps.toNat ∧ c.quote.input = b.stepSize.times m := by
  obtain ⟨⟨b, hin, hpriced⟩, -⟩ := Search.priced_of_found h.readable h.budget.state_eq hfound
  obtain ⟨hbase, bases, hbases, hmem⟩ := hin.base
  obtain ⟨m, hpositive, hmost, hinput⟩ := Route.input_of_size hpriced.quote
  rw [Nat.max_eq_right (EngineConfig.one_le_mostSteps h.budget.valid)] at hmost
  exact ⟨bases, b, hbases, hmem, hbase, m, hpositive, hmost, hinput⟩

/-- A found cycle that is executed honours its promise. -/
theorem honoured_of_executed (h : Coherent s.get config counted)
    (hfound : Search.run config e.market trade s = .ok (.found c))
    (hdone : (c.execute e.market e.bank e.vault block).perform s = (.ok done, t)) :
    ∃ bases b, Registry.baseDenoms s = .ok bases ∧ b ∈ bases ∧ c.HonouredBy e config s b done
      ∧ done.points = c.cost := by
  have hpromising := Search.promising_of_found h.readable h.budget.state_eq hfound
  obtain ⟨bases, b, hbases, hmem, hbase, hmultiple⟩ := h.base_of_found hfound
  obtain ⟨base, u, hstart, hlength, hrun, -⟩ := Candidate.execute_ok.1 hdone
  obtain rfl : b.denom = base := Option.some.inj (hbase.symm.trans hstart)
  obtain ⟨debited, minted, swapped, burned, booked, output, split, count, hdebit, hmint, hswap,
    hless, -, -, -, rfl⟩ := Candidate.executeFrom_ok.1 hrun
  obtain ⟨hlent, rfl⟩ := Action.perform_call_ok.1 hmint
  obtain ⟨outputs, hreturns, hquoted, hlast⟩ := Candidate.returns_of_swapAll hswap
  rw [Candidate.hops_of_zip hlength, Store.get_writeAll] at hreturns
  rw [List.map_snd_zip (Nat.le_of_eq hlength)] at hquoted
  have hdifference := BitVec.toNat_sub_of_le (BitVec.le_of_lt hless)
  rw [BitVec.lt_def] at hless
  refine ⟨bases, b, hbases, hmem, {
    route := rfl
    cycle := h.isCycle_of_found hfound
    base := hbase
    multiple := hmultiple
    quotes := hpromising.quotes
    swaps := ⟨outputs, _, _, ⟨debited, _, hdebit, Prod.ext hlent rfl, rfl⟩, hreturns, hquoted,
      hlast⟩
    earns := BitVec.lt_def.2 hless
    denom := rfl
    profit := ?_
    quoted := ?_
    points := h.cost_of_found hfound }, rfl⟩
  · show c.quote.input.toNat + (output - c.quote.input).toNat = output.toNat
    omega
  · rw [hpromising.profit]
    refine Amount.sub_le_sub_of_le ?_ hpromising.earns
    rw [← hlast]
    exact Amount.getLastD_le_getLastD hquoted (BitVec.le_refl c.quote.input)

end Coherent

/-- **Committed cycles.**  In every reachable state, whatever pools and bank do, an attempt that
executes a cycle has found it in the store in which the points are counted.  It starts in one of
the base denominations, honours what the search has promised, and its points were no more than a
transaction may spend and the block had left. -/
theorem Reached.executed_honours {g : Genesis} {s t : Store} (hreached : Reached g s) {e : Engine}
    {block : Block} {trade : Hop} {done : Trade}
    (hexecuted : e.postTrade block trade s = (.executed done, t)) :
    ∃ config u c budget bases b, storedConfig s = .ok config ∧ e.Finds block trade s u c
      ∧ Registry.baseDenoms s = .ok bases ∧ b ∈ bases ∧ c.HonouredBy e config u b done
      ∧ Budget.state u = .ok budget
      ∧ done.points ≤ min budget.pointsPerTx budget.remaining := by
  obtain ⟨config, counted, h⟩ := hreached.coherent
  have hcourse := Engine.postTrade_course e block trade s
  rw [hexecuted] at hcourse
  cases hcourse with
  | idle hnone => exact absurd hnone nofun
  | searched hnone => exact absurd hnone nofun
  | executed hconfig henabled hcounted hfound hdone =>
      obtain rfl := h.budget.config_unique hconfig
      obtain rfl := h.budget.counter_unique hcounted
      have hbegun := h.countedFor block
      obtain ⟨bases, b, hbases, hmem, hhonours, hpoints⟩ := hbegun.honoured_of_executed hfound hdone
      have hpromising := Search.promising_of_found hbegun.readable hbegun.budget.state_eq hfound
      refine ⟨config, _, _, _, bases, b, hconfig, ⟨config, counted, hconfig, hcounted, rfl, hfound⟩,
        ?_, hmem, hhonours, hbegun.budget.state_eq, ?_⟩
      -- The count of points is no base denomination.
      · have hsame : s.under Key.allBaseDenoms
            = (Engine.countedFor block counted s).under Key.allBaseDenoms :=
          Store.under_congr fun k hk => (Engine.get_countedFor
            (Key.kind_ne (Key.allBaseDenoms_prefix_iff.1 hk)) block counted s).symm
        rw [Registry.baseDenoms, Query.loadAll, hsame]
        exact hbases
      · rw [hpoints]
        exact Std.le_min_iff.2 ⟨hpromising.fitsTx, hpromising.fitsBlock⟩

/-- The round trip among generous pools honours its promise. -/
theorem Reached.executed_honours_roundTrip :
    ∃ (s t u : Store) (done : Trade) (config : EngineConfig) (c : Candidate) (b : BaseDenom),
      Reached (routeGenesis (tight 10) roundTrip) s
      ∧ generous.postTrade ⟨0, .epoch⟩ ⟨1, atom, osmo⟩ s = (.executed done, t)
      ∧ c.HonouredBy generous config u b done := by
  obtain ⟨s, hgenesis, hturning⟩ := exists_turning validate_roundTripGenesis
  have hreached := Reached.imported hgenesis
  obtain ⟨done, t, hexecuted, -⟩ :=
    hturning.exists_executed ⟨0, .epoch⟩ (by decide) (by decide)
  obtain ⟨config, u, c, _, _, b, -, -, -, -, hhonours, -⟩ := executed_honours hreached hexecuted
  exact ⟨s, t, u, done, config, c, b, hreached, hexecuted, hhonours⟩

end Backrun
