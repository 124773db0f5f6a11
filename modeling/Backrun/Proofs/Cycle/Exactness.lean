import Backrun.Proofs.Simulation.RoundTrip

/-!
# The search is exact

What every outcome of a search says about the cycles in play, all outcomes at once.
-/

namespace Backrun.Search

variable {config : EngineConfig} {s : Store} {available : UInt64}

/-- A search with points left in the block, in a store whose registry can be read: it ends
without routes exactly if no cycle is in play, for want of points exactly if some cycle in play
costs more than is available and none is priced, and with a cycle exactly if some priced
candidate earns.  The one that it finds precedes all other priced candidates. -/
theorem search_exact (hreadable : Registry.Readable s.get) {counted : PointCounter}
    (hconfig : storedConfig s = .ok config) (hcounted : Budget.counter s = .ok counted)
    (henabled : config.enabled = true) (hleft : counted.consumed < config.pointsPerBlock)
    (havailable : available
      = min config.pointsPerTx (Points.minus config.pointsPerBlock counted.consumed))
    (market : Market) (trade : Hop) :
    ∃ outcome, run config market trade s = .ok outcome
      ∧ (outcome = .noRoutes ↔ ∀ p b, ¬ InPlay config trade s p b)
      ∧ (outcome = .budgetExhausted
        ↔ (∃ p b, InPlay config trade s p b)
          ∧ (∀ c, ¬ Priced config market available s trade c)
          ∧ ∃ p b, InPlay config trade s p b ∧ TooCostly config market available s p)
      ∧ ((∃ c, outcome = .found c)
        ↔ ∃ c, Priced config market available s trade c ∧ c.quote.profit ≠ 0)
      ∧ ∀ c, outcome = .found c →
        Priced config market available s trade c ∧ c.quote.profit ≠ 0
          ∧ ∀ d, Priced config market available s trade d → d ≠ c → c.Precedes d := by
  have hbudget := Budget.state_ok.2 ⟨config, counted, hconfig, hcounted, rfl⟩
  have hremaining : Points.minus config.pointsPerBlock counted.consumed ≠ 0 := by
    intro hzero
    have hnat := Points.toNat_minus config.pointsPerBlock counted.consumed
    rw [hzero, UInt64.toNat_zero] at hnat
    rw [UInt64.lt_iff_toNat_lt] at hleft
    omega
  subst havailable
  obtain ⟨outcome, hrun⟩ : ∃ outcome, run config market trade s = .ok outcome := by
    rcases run_cases hreadable hbudget henabled hremaining market trade with
      ⟨-, hrun⟩ | ⟨-, _, hrun, -, -⟩
    · exact ⟨_, hrun⟩
    · exact ⟨_, hrun⟩
  have houtcome : ∀ o, outcome = o ↔ run config market trade s = .ok o :=
    fun o => by rw [hrun, Except.ok.injEq]
  refine ⟨outcome, hrun, (houtcome _).trans ?_, (houtcome _).trans ?_, ?_, fun c hfound => ?_⟩
  · exact run_noRoutes_iff hreadable hbudget henabled hremaining
  · exact run_budgetExhausted_iff hreadable hbudget henabled hremaining
  · exact (exists_congr fun c => houtcome (.found c)).trans
      (exists_run_found_iff hreadable hbudget henabled hremaining)
  · exact (run_found_iff hreadable hbudget henabled hremaining).1 ((houtcome _).1 hfound)

/-- Among generous pools a search finds the round trip. -/
theorem search_exact_roundTrip :
    ∃ s counted, Registry.Readable s.get
      ∧ storedConfig s = .ok (Simulation.tight 10) ∧ Budget.counter s = .ok counted
      ∧ counted.consumed < (Simulation.tight 10).pointsPerBlock
      ∧ run (Simulation.tight 10) Simulation.generousPools ⟨1, Simulation.atom, Simulation.osmo⟩ s
        = .ok (.found Simulation.roundTripCandidate) := by
  obtain ⟨s, -, hturning⟩ := Simulation.exists_turning Simulation.validate_roundTripGenesis
  have hreadable := hturning.coherent.readable
  have hconfig := hturning.coherent.budget.storedConfig_eq
  have hcounted := hturning.coherent.budget.counter_eq
  obtain ⟨outcome, hrun, -, -, hsome, hbest⟩ := search_exact hreadable hconfig hcounted rfl
    (by decide) rfl Simulation.generousPools ⟨1, Simulation.atom, Simulation.osmo⟩
  have hpriced : Priced (Simulation.tight 10) Simulation.generousPools
      (min 5 (Points.minus 10 0)) s ⟨1, Simulation.atom, Simulation.osmo⟩
      Simulation.roundTripCandidate :=
    hturning.only.priced rfl rfl rfl (Simulation.roundTrip_pricedFrom (by decide))
  obtain ⟨c, hfound⟩ := hsome.2 ⟨_, hpriced, by decide⟩
  obtain ⟨hc, -, -⟩ := hbest c hfound
  have ⟨b, hin, _⟩ := hc
  have hsame := ((hturning.only.inPlay_iff rfl rfl).1 hin).1
  have hcandidate : c = Simulation.roundTripCandidate :=
    hc.unique _ _ _ _ hpriced (congrArg Proposal.routeIndex hsame)
      (congrArg Proposal.basePosition hsame)
  refine ⟨s, _, hreadable, hconfig, hcounted, by decide, ?_⟩
  rw [hrun, hfound, hcandidate]

end Backrun.Search
