import Backrun.Proofs.Budget.Cost
import Backrun.Proofs.Cycle.Search
import Backrun.Proofs.Cycle.Sizing

/-!
# Cycles that drop out of a search

A cycle is passed over for one of two reasons (`DropsOut`).

* Some hop has no weight: its pool is unknown, or no weight is configured for its family.
* The cycle can be paid for, but a quote that its size asks for is refused.

A cycle that is passed over takes no part in the outcome: without it the search comes to the
same conclusion (`conclude_eq_of_dropped`).
-/

namespace Backrun

namespace Search

variable (config : EngineConfig) (market : Market) (available : UInt64) (s : Store)

/-- A cycle that has no cost, or that can be paid for but has no size. -/
inductive DropsOut (p : Proposal) (b : BaseDenom) : Prop
  | unweighed {hop : Hop} (hmem : hop ∈ p.route.hops)
      (hweight : Budget.Unweighed config market s hop)
  | unquoted {cost : UInt64} {err : Error} (hcost : Budget.cost config market p.route s = .ok cost)
      (hfits : cost ≤ available)
      (hsize : p.route.size market b.stepSize config.search s = .error err)
      (hquote : Route.Misquotes market s p.route.hops err)

variable {config market available s}

/-- A search passes over the cycles that drop out, and over no others. -/
theorem price_eq_passedOver {p : Proposal} {b : BaseDenom} :
    price config market available p b s = .ok .passedOver
      ↔ DropsOut config market available s p b := by
  rcases price_cases config market available s p b with
    ⟨err, hcost, hprice⟩ | ⟨cost, hcost, hrest⟩
  · refine ⟨fun _ => ?_, fun _ => hprice⟩
    obtain ⟨hop, hmem, hweight⟩ := Budget.hopsCost_error.1 ⟨err, hcost⟩
    exact .unweighed hmem hweight
  · have hweighed : ∀ hop ∈ p.route.hops, ¬ Budget.Unweighed config market s hop := by
      intro hop hmem hweight
      obtain ⟨err, herr⟩ := Budget.hopsCost_error.2 ⟨hop, hmem, hweight⟩
      exact absurd (hcost.symm.trans herr) nofun
    rcases hrest with ⟨hover, hprice⟩ | ⟨hfits, ⟨err, hsize, hprice⟩ | ⟨quote, hsize, hprice⟩⟩
    · rw [hprice]
      refine ⟨nofun, ?_⟩
      rintro (⟨hmem, hweight⟩ | ⟨hcost', hfits, -, -⟩)
      · exact absurd hweight (hweighed _ hmem)
      · cases hcost.symm.trans hcost'
        exact absurd hover (UInt64.not_lt.2 hfits)
    · exact ⟨fun _ => .unquoted hcost hfits hsize (Route.size_error hsize), fun _ => hprice⟩
    · rw [hprice]
      refine ⟨nofun, ?_⟩
      rintro (⟨hmem, hweight⟩ | ⟨-, -, hsize', -⟩)
      · exact absurd hweight (hweighed _ hmem)
      · exact absurd (hsize.symm.trans hsize') nofun

/-- Without the cycles that drop out the others are priced as they are among them. -/
theorem priceAll_filter {tried : List (Proposal × BaseDenom)} {pricings : List Pricing}
    (keep : Proposal × BaseDenom → Bool)
    (hdropped : ∀ c ∈ tried, keep c = false → DropsOut config market available s c.1 c.2)
    (hall : priceAll config market available tried s = .ok pricings) :
    ∃ kept, priceAll config market available (tried.filter keep) s = .ok kept
      ∧ kept.filterMap Pricing.candidate? = pricings.filterMap Pricing.candidate?
      ∧ kept.any Pricing.isOverBudget = pricings.any Pricing.isOverBudget := by
  induction tried generalizing pricings with
  | nil =>
      cases hall
      exact ⟨[], rfl, rfl, rfl⟩
  | cons c rest ih =>
      obtain ⟨first, hfirst, hall⟩ := Query.bind_ok.1 hall
      obtain ⟨others, hothers, hall⟩ := Query.bind_ok.1 hall
      cases hall
      obtain ⟨kept, hkept, hcandidates, hover⟩ :=
        ih (fun d hd => hdropped d (List.mem_cons_of_mem c hd)) hothers
      cases hkeep : keep c with
      | true =>
          refine ⟨first :: kept, ?_, ?_, ?_⟩
          · rw [List.filter_cons_of_pos hkeep]
            exact Query.bind_ok.2 ⟨first, hfirst, Query.bind_ok.2 ⟨kept, hkept, rfl⟩⟩
          · rw [List.filterMap_cons, List.filterMap_cons, hcandidates]
          · rw [List.any_cons, List.any_cons, hover]
      -- What is passed over is neither a candidate nor over the budget.
      | false =>
          have hpassed := price_eq_passedOver.2 (hdropped c List.mem_cons_self hkeep)
          cases hfirst.symm.trans hpassed
          rw [List.filter_cons_of_neg (by simp [hkeep])]
          exact ⟨kept, hkept, hcandidates, hover⟩

/-- Cycles that drop out do not matter to what a search concludes. -/
theorem conclude_eq_of_dropped {tried : List (Proposal × BaseDenom)} {pricings : List Pricing}
    (keep : Proposal × BaseDenom → Bool)
    (hdropped : ∀ c ∈ tried, keep c = false → DropsOut config market available s c.1 c.2)
    (hall : priceAll config market available tried s = .ok pricings) :
    ∃ kept, priceAll config market available (tried.filter keep) s = .ok kept
      ∧ conclude kept = conclude pricings := by
  obtain ⟨kept, hkept, hcandidates, hover⟩ := priceAll_filter keep hdropped hall
  exact ⟨kept, hkept, by rw [conclude, conclude, hcandidates, hover]⟩

end Search

end Backrun
