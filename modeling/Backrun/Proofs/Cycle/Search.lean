import Backrun.Proofs.Budget.Counting
import Backrun.Proofs.Cycle.Proposals
import Backrun.Proofs.Cycle.Ranking

/-!
# What a search finds

Pools without a family, without a weight or without a quote only take their cycles out of
the search (`Recoverable`), so that every cycle in play is priced, over the budget or passed
over.  From there each outcome of a search is characterized by the cycles in play.
-/

namespace Backrun

/-! ## Failures that a search passes over -/

namespace Query

variable {α β : Type}

/-- A query whose failures a search passes over. -/
def Recoverable (q : Query α) : Prop :=
  ∀ ⦃s : Store⦄ ⦃e : Error⦄, q s = .error e → e.isRecoverable = true

theorem Recoverable.pure (a : α) : Recoverable (Pure.pure a : Query α) := fun _ _ => nofun

theorem Recoverable.notFound (what : Missing) :
    Recoverable (MonadExcept.throw (.notFound what) : Query α) := by
  intro s e h
  rw [← Except.error.inj h]
  rfl

theorem Recoverable.inspect (i : Inspection α) (what : Fault → Missing) :
    Recoverable (Query.inspect i fun fault => .notFound (what fault)) := by
  intro s e h
  rw [Query.inspect] at h
  cases hanswer : i s.get with
  | error fault =>
      rw [hanswer] at h
      rw [← Except.error.inj h]
      rfl
  | ok a =>
      rw [hanswer] at h
      exact absurd h nofun

theorem Recoverable.bind {q : Query α} {f : α → Query β} (hq : Recoverable q)
    (hf : ∀ a, Recoverable (f a)) : Recoverable (q >>= f) := by
  intro s e h
  rw [bind_apply] at h
  cases hanswer : q s with
  | error e' =>
      rw [hanswer] at h
      rw [← Except.error.inj h]
      exact hq hanswer
  | ok a =>
      rw [hanswer] at h
      exact hf a h

theorem Recoverable.unlessRecoverable {q : Query α} (h : Recoverable q) (s : Store) :
    Query.unlessRecoverable q s = .ok (q s).toOption := by
  rw [Query.unlessRecoverable]
  cases hanswer : q s with
  | ok a => rfl
  | error e =>
      dsimp only
      rw [if_pos (h hanswer)]
      rfl

end Query

namespace Budget

variable (config : EngineConfig) (market : Market)

theorem recoverable_hopCost (hop : Hop) : (hopCost config market hop).Recoverable := by
  refine .bind (.inspect _ _) fun poolType => ?_
  split
  · exact .pure _
  · exact .notFound _

theorem recoverable_hopsCost (cost : UInt64) (hops : List Hop) :
    (hopsCost config market cost hops).Recoverable := by
  induction hops generalizing cost with
  | nil => exact .pure cost
  | cons hop rest ih => exact .bind (recoverable_hopCost config market hop) fun _ => ih _

end Budget

namespace Route

variable (market : Market)

theorem recoverable_quoteHops (amount : Amount) (hops : List Hop) :
    (quoteHops market amount hops).Recoverable := by
  induction hops generalizing amount with
  | nil => exact .pure []
  | cons hop rest ih =>
      exact .bind (.inspect _ _) fun output => .bind (ih output) fun _ => .pure _

theorem recoverable_narrow {profit : Nat → Query Amount} (hprofit : ∀ n, (profit n).Recoverable)
    (rounds low high : Nat) : (narrow profit rounds low high).Recoverable := by
  induction rounds generalizing low high with
  | zero => exact .pure low
  | succ rounds ih =>
      rw [narrow]
      split
      · refine .bind (hprofit _) fun above => .bind (hprofit _) fun here => ?_
        split
        · exact ih _ _
        · exact ih _ _
      · exact .pure low

theorem recoverable_size (r : Route) (step : Amount) (params : SearchParams) :
    (r.size market step params).Recoverable := by
  have hquote : ∀ multiple, (r.quoteMultiple market step multiple).Recoverable :=
    fun _ => .bind (recoverable_quoteHops market _ r.hops) fun _ => .pure _
  exact .bind (recoverable_narrow (fun n => .bind (hquote n) fun _ => .pure _) _ _ _) hquote

end Route

/-! ## Prices -/

namespace Search

variable (config : EngineConfig) (market : Market) (available : UInt64) (s : Store)

/-- A candidate that stands for a cycle from a base denomination, with its cost, which is
available, and its quote. -/
structure PricedFrom (b : BaseDenom) (c : Candidate) : Prop where
  cost : Budget.cost config market c.route s = .ok c.cost
  available : c.cost ≤ available
  quote : c.route.size market b.stepSize config.search s = .ok c.quote

/-- A cycle that costs more than is available. -/
def TooCostly (p : Proposal) : Prop :=
  ∃ cost, Budget.cost config market p.route s = .ok cost ∧ available < cost

/-- A cycle is passed over without a cost, too costly above what is available, and else passed
over without a quote or priced. -/
theorem price_cases (p : Proposal) (b : BaseDenom) :
    (∃ err, Budget.cost config market p.route s = .error err
        ∧ price config market available p b s = .ok .passedOver)
      ∨ ∃ cost, Budget.cost config market p.route s = .ok cost
        ∧ ((available < cost ∧ price config market available p b s = .ok .overBudget)
          ∨ (cost ≤ available
            ∧ ((∃ err, p.route.size market b.stepSize config.search s = .error err
                ∧ price config market available p b s = .ok .passedOver)
              ∨ ∃ quote, p.route.size market b.stepSize config.search s = .ok quote
                ∧ price config market available p b s = .ok (.priced { p with quote, cost })))) := by
  have hcost := (Budget.recoverable_hopsCost config market config.search.overhead
    p.route.hops).unlessRecoverable s
  have hsize := (Route.recoverable_size market p.route b.stepSize
    config.search).unlessRecoverable s
  rw [price, Query.bind_of_ok (show Query.unlessRecoverable (Budget.cost config market p.route) s
    = _ from hcost)]
  rcases hanswer : Budget.hopsCost config market config.search.overhead p.route.hops s with
    err | cost
  · exact .inl ⟨err, hanswer, rfl⟩
  · refine .inr ⟨cost, hanswer, ?_⟩
    by_cases hover : available < cost
    · refine .inl ⟨hover, ?_⟩
      simp only [Except.toOption, if_pos hover]
      rfl
    · refine .inr ⟨UInt64.not_lt.1 hover, ?_⟩
      simp only [Except.toOption, if_neg hover]
      rw [Query.bind_of_ok hsize]
      rcases p.route.size market b.stepSize config.search s with err | quote
      · exact .inl ⟨err, rfl, rfl⟩
      · exact .inr ⟨quote, rfl, rfl⟩

/-- Every cycle can be priced, or is too costly, or is passed over. -/
theorem price_ok (p : Proposal) (b : BaseDenom) :
    ∃ pricing, price config market available p b s = .ok pricing
      ∧ (∀ c, pricing.candidate? = some c
        ↔ c.toProposal = p ∧ PricedFrom config market available s b c)
      ∧ (pricing.isOverBudget = true ↔ TooCostly config market available s p) := by
  rcases price_cases config market available s p b with
    ⟨err, hcost, hprice⟩ | ⟨cost, hcost, ⟨hover, hprice⟩ | ⟨hfits, hrest⟩⟩
  · refine ⟨_, hprice, fun c => ⟨nofun, ?_⟩, ⟨nofun, ?_⟩⟩
    · rintro ⟨rfl, hpriced⟩
      exact absurd (hpriced.cost.symm.trans hcost) (by simp)
    · rintro ⟨cost, hok, -⟩
      exact absurd (hok.symm.trans hcost) (by simp)
  · refine ⟨_, hprice, fun c => ⟨nofun, ?_⟩, ⟨fun _ => ⟨cost, hcost, hover⟩, fun _ => rfl⟩⟩
    rintro ⟨rfl, hpriced⟩
    have hsame : c.cost = cost := Except.ok.inj (hpriced.cost.symm.trans hcost)
    exact absurd hover (UInt64.not_lt.2 (hsame ▸ hpriced.available))
  · have hcheap : ¬ TooCostly config market available s p := by
      rintro ⟨cost', hok, hover⟩
      have hsame : cost' = cost := Except.ok.inj (hok.symm.trans hcost)
      exact UInt64.not_lt.2 hfits (hsame ▸ hover)
    rcases hrest with ⟨err, hsize, hprice⟩ | ⟨quote, hsize, hprice⟩
    · refine ⟨_, hprice, fun c => ⟨nofun, ?_⟩, ⟨nofun, fun hcostly => absurd hcostly hcheap⟩⟩
      rintro ⟨rfl, hpriced⟩
      exact absurd (hpriced.quote.symm.trans hsize) (by simp)
    · refine ⟨_, hprice, fun c => ⟨fun hsome => ?_, ?_⟩,
        ⟨nofun, fun hcostly => absurd hcostly hcheap⟩⟩
      · rw [← Option.some.inj hsome]
        exact ⟨rfl, hcost, hfits, hsize⟩
      · rintro ⟨rfl, hpriced⟩
        have hcosts : c.cost = cost := Except.ok.inj (hpriced.cost.symm.trans hcost)
        have hquotes : c.quote = quote := Except.ok.inj (hpriced.quote.symm.trans hsize)
        rw [← hcosts, ← hquotes]
        rfl

/-- All cycles are priced, each for itself. -/
theorem priceAll_ok (tried : List (Proposal × BaseDenom)) :
    ∃ pricings, priceAll config market available tried s = .ok pricings
      ∧ (∀ c, c ∈ pricings.filterMap Pricing.candidate?
        ↔ ∃ b, (c.toProposal, b) ∈ tried ∧ PricedFrom config market available s b c)
      ∧ (pricings.any Pricing.isOverBudget = true
        ↔ ∃ p b, (p, b) ∈ tried ∧ TooCostly config market available s p) := by
  induction tried with
  | nil => exact ⟨[], rfl, by simp, by simp⟩
  | cons e rest ih =>
      obtain ⟨p, b⟩ := e
      obtain ⟨pricing, hprice, hcandidate, hover⟩ := price_ok config market available s p b
      obtain ⟨others, hothers, hcandidates, hovers⟩ := ih
      refine ⟨pricing :: others, ?_, fun c => ?_, ?_⟩
      · rw [priceAll, Query.bind_of_ok hprice, Query.bind_of_ok hothers]
        rfl
      · have hsplit : c ∈ (pricing :: others).filterMap Pricing.candidate?
            ↔ pricing.candidate? = some c ∨ c ∈ others.filterMap Pricing.candidate? := by
          simp only [List.mem_filterMap, List.mem_cons, exists_eq_or_imp]
        rw [hsplit, hcandidate, hcandidates]
        constructor
        · rintro (⟨rfl, hpriced⟩ | ⟨b', hmem, hpriced⟩)
          · exact ⟨b, List.mem_cons_self, hpriced⟩
          · exact ⟨b', List.mem_cons_of_mem _ hmem, hpriced⟩
        · rintro ⟨b', hmem, hpriced⟩
          rcases List.mem_cons.1 hmem with heq | hmem
          · obtain ⟨rfl, rfl⟩ := Prod.mk.inj heq
            exact .inl ⟨rfl, hpriced⟩
          · exact .inr ⟨b', hmem, hpriced⟩
      · rw [List.any_cons, Bool.or_eq_true, hover, hovers]
        constructor
        · rintro (hcostly | ⟨p', b', hmem, hcostly⟩)
          · exact ⟨p, b, List.mem_cons_self, hcostly⟩
          · exact ⟨p', b', List.mem_cons_of_mem _ hmem, hcostly⟩
        · rintro ⟨p', b', hmem, hcostly⟩
          rcases List.mem_cons.1 hmem with heq | hmem
          · obtain ⟨rfl, rfl⟩ := Prod.mk.inj heq
            exact .inl hcostly
          · exact .inr ⟨p', b', hmem, hcostly⟩

/-! ## Outcomes -/

/-- A candidate that stands for a cycle in play, priced. -/
def Priced (trade : Hop) (c : Candidate) : Prop :=
  ∃ b, InPlay config trade s c.toProposal b ∧ PricedFrom config market available s b c

/-- A priced candidate is determined by its two positions. -/
theorem Priced.unique {trade : Hop} {c d : Candidate}
    (hc : Priced config market available s trade c)
    (hd : Priced config market available s trade d) (hroute : c.routeIndex = d.routeIndex)
    (hbase : c.basePosition = d.basePosition) : c = d := by
  obtain ⟨b, hplay, hpriced⟩ := hc
  obtain ⟨b', hplay', hpriced'⟩ := hd
  obtain ⟨hproposal, rfl⟩ := hplay.unique hplay' hroute hbase
  obtain ⟨p, quote, cost⟩ := c
  obtain ⟨p', quote', cost'⟩ := d
  dsimp only at hproposal
  subst hproposal
  have hcost : cost = cost' := Except.ok.inj (hpriced.cost.symm.trans hpriced'.cost)
  have hquote : quote = quote' := Except.ok.inj (hpriced.quote.symm.trans hpriced'.quote)
  rw [hcost, hquote]

section Conclusion

variable {pricings : List Pricing}

/-- Cycles that are too costly matter only if nothing could be priced. -/
theorem conclude_eq_budgetExhausted : conclude pricings = .budgetExhausted
    ↔ pricings.filterMap Pricing.candidate? = [] ∧ pricings.any Pricing.isOverBudget = true := by
  rw [← List.isEmpty_iff, ← Bool.and_eq_true, conclude]
  split
  · rename_i hexhausted
    exact ⟨fun _ => hexhausted, fun _ => rfl⟩
  · rename_i hexhausted
    refine ⟨fun h => ?_, fun h => absurd h hexhausted⟩
    cases hselect : Candidate.select (pricings.filterMap Pricing.candidate?) with
    | none => simp [hselect] at h
    | some best => simp [hselect] at h

theorem conclude_eq_found {c : Candidate} : conclude pricings = .found c
    ↔ Candidate.select (pricings.filterMap Pricing.candidate?) = some c := by
  rw [conclude]
  split
  · rename_i hexhausted
    rw [Bool.and_eq_true, List.isEmpty_iff] at hexhausted
    rw [hexhausted.1]
    exact ⟨nofun, nofun⟩
  · cases Candidate.select (pricings.filterMap Pricing.candidate?) <;> simp

theorem conclude_ne_noRoutes : conclude pricings ≠ .noRoutes := by
  rw [conclude]
  split
  · simp
  · cases Candidate.select (pricings.filterMap Pricing.candidate?) <;> simp

end Conclusion

variable {config market s} {budget : BudgetState} {trade : Hop}

section Enabled

variable (hreadable : Registry.Readable s.get) (hbudget : Budget.state s = .ok budget)
  (henabled : config.enabled = true) (hleft : budget.remaining ≠ 0)

include hreadable hbudget henabled hleft

/-- With points left in the block a search has nothing to try, or it prices the cycles in play
and concludes. -/
theorem run_cases (market : Market) (trade : Hop) :
    ((∀ p b, ¬ InPlay config trade s p b) ∧ run config market trade s = .ok .noRoutes)
      ∨ (∃ p b, InPlay config trade s p b) ∧ ∃ pricings : List Pricing,
        run config market trade s = .ok (conclude pricings)
        ∧ (∀ c, c ∈ pricings.filterMap Pricing.candidate?
          ↔ Priced config market (min budget.pointsPerTx budget.remaining) s trade c)
        ∧ (pricings.any Pricing.isOverBudget = true ↔ ∃ p b, InPlay config trade s p b
          ∧ TooCostly config market (min budget.pointsPerTx budget.remaining) s p) := by
  obtain ⟨tried, htried, hplay⟩ := proposals_ok hreadable config trade
  by_cases hnone : tried = []
  · refine .inl ⟨fun p b hin => ?_, ?_⟩
    · rw [← hplay, hnone] at hin
      exact absurd hin List.not_mem_nil
    · rw [run, if_neg (not_not_intro henabled), Query.bind_of_ok hbudget, if_neg hleft,
        Query.bind_of_ok htried, if_pos (List.isEmpty_iff.2 hnone)]
      rfl
  · obtain ⟨⟨p, b⟩, hmem⟩ := List.exists_mem_of_ne_nil tried hnone
    obtain ⟨pricings, hpricings, hcandidates, hovers⟩ :=
      priceAll_ok config market budget.available s tried
    refine .inr ⟨⟨p, b, (hplay p b).1 hmem⟩, pricings, ?_, fun c => ?_, ?_⟩
    · rw [run, if_neg (not_not_intro henabled), Query.bind_of_ok hbudget, if_neg hleft,
        Query.bind_of_ok htried, if_neg (mt List.isEmpty_iff.1 hnone),
        Query.bind_of_ok hpricings]
      rfl
    · rw [hcandidates]
      exact exists_congr fun b => and_congr_left fun _ => hplay _ b
    · rw [hovers]
      exact exists_congr fun p => exists_congr fun b => and_congr_left fun _ => hplay p b

theorem run_noRoutes_iff :
    run config market trade s = .ok .noRoutes ↔ ∀ p b, ¬ InPlay config trade s p b := by
  rcases run_cases hreadable hbudget henabled hleft market trade with
    ⟨hnone, hrun⟩ | ⟨⟨p, b, hin⟩, pricings, hrun, -, -⟩
  · exact ⟨fun _ => hnone, fun _ => hrun⟩
  · rw [hrun, Except.ok.injEq]
    exact ⟨fun h => absurd h conclude_ne_noRoutes, fun h => absurd hin (h p b)⟩

theorem run_budgetExhausted_iff :
    run config market trade s = .ok .budgetExhausted
      ↔ (∃ p b, InPlay config trade s p b)
        ∧ (∀ c, ¬ Priced config market (min budget.pointsPerTx budget.remaining) s trade c)
        ∧ ∃ p b, InPlay config trade s p b
          ∧ TooCostly config market (min budget.pointsPerTx budget.remaining) s p := by
  rcases run_cases hreadable hbudget henabled hleft market trade with
    ⟨hnone, hrun⟩ | ⟨hsome, pricings, hrun, hpriced, hcostly⟩
  · rw [hrun]
    exact ⟨nofun, fun ⟨⟨p, b, hin⟩, _⟩ => absurd hin (hnone p b)⟩
  · rw [hrun, Except.ok.injEq, conclude_eq_budgetExhausted, hcostly,
      List.eq_nil_iff_forall_not_mem]
    constructor
    · exact fun h => ⟨hsome, fun c hc => h.1 c ((hpriced c).2 hc), h.2⟩
    · exact fun h => ⟨fun c hc => h.2.1 c ((hpriced c).1 hc), h.2.2⟩

/-- The found candidate is the one that precedes all others. -/
theorem run_found_iff {c : Candidate} :
    run config market trade s = .ok (.found c)
      ↔ Priced config market (min budget.pointsPerTx budget.remaining) s trade c
        ∧ c.quote.profit ≠ 0
        ∧ ∀ d, Priced config market (min budget.pointsPerTx budget.remaining) s trade d →
          d ≠ c → c.Precedes d := by
  rcases run_cases hreadable hbudget henabled hleft market trade with
    ⟨hnone, hrun⟩ | ⟨-, pricings, hrun, hpriced, -⟩
  · rw [hrun]
    exact ⟨nofun, fun ⟨⟨b, hin, _⟩, _⟩ => absurd hin (hnone _ b)⟩
  -- No candidate precedes the selected one, and two that are ranked alike are one.
  · have hselected : ∀ {best},
        Candidate.select (pricings.filterMap Pricing.candidate?) = some best →
        Priced config market (min budget.pointsPerTx budget.remaining) s trade best
          ∧ best.quote.profit ≠ 0
          ∧ ∀ d, Priced config market (min budget.pointsPerTx budget.remaining) s trade d →
            d ≠ best → best.Precedes d := by
      intro best hselect
      obtain ⟨hmem, hearns, hbest⟩ := Candidate.select_eq_some hselect
      refine ⟨(hpriced best).1 hmem, hearns, fun d hd hne => ?_⟩
      refine Candidate.precedes_of_not (hbest d ((hpriced d).2 hd)) ?_
      rw [← not_and_or]
      exact fun hsame => hne (((hpriced best).1 hmem).unique _ _ _ _ hd hsame.1 hsame.2).symm
    rw [hrun, Except.ok.injEq, conclude_eq_found]
    refine ⟨hselected, fun ⟨hc, hearns, hfirst⟩ => ?_⟩
    cases hselect : Candidate.select (pricings.filterMap Pricing.candidate?) with
    | none => exact absurd (Candidate.select_eq_none.1 hselect c ((hpriced c).2 hc)) hearns
    | some best =>
        obtain ⟨hbest, -, hlast⟩ := hselected hselect
        by_cases hsame : best = c
        · rw [hsame]
        · exact absurd (hlast c hc (Ne.symm hsame)) (hfirst best hbest hsame).asymm

/-- The only cycle in play is found if it can be priced and earns. -/
theorem run_of_only {c : Candidate}
    (hc : Priced config market (min budget.pointsPerTx budget.remaining) s trade c)
    (hearns : c.quote.profit ≠ 0)
    (honly : ∀ p b, InPlay config trade s p b → p = c.toProposal) :
    run config market trade s = .ok (.found c) := by
  refine (run_found_iff hreadable hbudget henabled hleft).2 ⟨hc, hearns, fun d hd hne => ?_⟩
  have ⟨b, hin, _⟩ := hd
  have hsame := honly _ b hin
  refine absurd (hd.unique _ _ _ _ hc ?_ ?_) hne
  · exact congrArg Proposal.routeIndex hsame
  · exact congrArg Proposal.basePosition hsame

/-- Something is found exactly if some priced candidate earns. -/
theorem exists_run_found_iff :
    (∃ c, run config market trade s = .ok (.found c))
      ↔ ∃ c, Priced config market (min budget.pointsPerTx budget.remaining) s trade c
        ∧ c.quote.profit ≠ 0 := by
  constructor
  · rintro ⟨c, hfound⟩
    obtain ⟨hc, hearns, -⟩ := (run_found_iff hreadable hbudget henabled hleft).1 hfound
    exact ⟨c, hc, hearns⟩
  · rintro ⟨c, hc, hearns⟩
    rcases run_cases hreadable hbudget henabled hleft market trade with
      ⟨hnone, -⟩ | ⟨-, pricings, hrun, hpriced, -⟩
    · have ⟨b, hin, _⟩ := hc
      exact absurd hin (hnone _ b)
    · cases hselect : Candidate.select (pricings.filterMap Pricing.candidate?) with
      | none => exact absurd (Candidate.select_eq_none.1 hselect c ((hpriced c).2 hc)) hearns
      | some best => exact ⟨best, by rw [hrun, conclude_eq_found.2 hselect]⟩

end Enabled

/-- A found candidate is priced within the budget and earns something. -/
theorem priced_of_found {best : Candidate} (hreadable : Registry.Readable s.get)
    (hbudget : Budget.state s = .ok budget)
    (hfound : run config market trade s = .ok (.found best)) :
    Priced config market (min budget.pointsPerTx budget.remaining) s trade best
      ∧ best.quote.profit ≠ 0 := by
  by_cases henabled : config.enabled = true
  · by_cases hleft : budget.remaining = 0
    · rw [run, if_neg (not_not_intro henabled), Query.bind_of_ok hbudget, if_pos hleft] at hfound
      exact absurd hfound (by simp)
    · obtain ⟨hpriced, hearns, -⟩ := (run_found_iff hreadable hbudget henabled hleft).1 hfound
      exact ⟨hpriced, hearns⟩
  · rw [run, if_pos henabled] at hfound
    exact absurd hfound (by simp)

/-- Only an enabled engine finds something. -/
theorem enabled_of_found {best : Candidate}
    (hfound : run config market trade s = .ok (.found best)) : config.enabled = true := by
  by_contra hdisabled
  rw [run, if_pos hdisabled] at hfound
  exact absurd hfound (by simp)

/-- Where the registry and the budget can be read, a search comes to an outcome. -/
theorem exists_run_ok (hreadable : Registry.Readable s.get) (hbudget : Budget.state s = .ok budget)
    (config : EngineConfig) (market : Market) (trade : Hop) :
    ∃ outcome, run config market trade s = .ok outcome := by
  by_cases henabled : config.enabled = true
  · by_cases hleft : budget.remaining = 0
    · rw [run, if_neg (not_not_intro henabled), Query.bind_of_ok hbudget, if_pos hleft]
      exact ⟨_, rfl⟩
    · rcases run_cases hreadable hbudget henabled hleft market trade with
        ⟨-, hrun⟩ | ⟨-, pricings, hrun, -⟩
      · exact ⟨_, hrun⟩
      · exact ⟨_, hrun⟩
  · rw [run, if_pos henabled]
    exact ⟨_, rfl⟩

end Search

end Backrun
