import Backrun.Proofs.Engine.Decodable

/-!
# Cycles that are executed

Nothing in the engine itself stands in the way of a cycle that was found: it fits the budget,
and more comes out than goes in.  Where swaps return what was quoted, the bank obliges and
the profit can be booked, it is executed.
-/

namespace Backrun

/-! ## Quotes -/

namespace Route

variable {market : Market} {s : Store}

theorem quoteHops_cons_ok {amount : Amount} {hop : Hop} {rest : List Hop} {outputs : List Amount} :
    quoteHops market amount (hop :: rest) s = .ok outputs
      ↔ ∃ output others, market.quote hop amount s.get = .ok output
        ∧ quoteHops market output rest s = .ok others ∧ outputs = output :: others := by
  rw [quoteHops, Query.bind_ok]
  constructor
  · rintro ⟨output, hquote, h⟩
    obtain ⟨others, hothers, h⟩ := Query.bind_ok.1 h
    exact ⟨output, others, Verdict.mapError_ok.1 hquote, hothers, (Except.ok.inj h).symm⟩
  · rintro ⟨output, others, hquote, hothers, rfl⟩
    exact ⟨output, Verdict.mapError_ok.2 hquote, Query.bind_ok.2 ⟨others, hothers, rfl⟩⟩

theorem length_of_quoteHops {amount : Amount} {hops : List Hop} {outputs : List Amount}
    (h : quoteHops market amount hops s = .ok outputs) : outputs.length = hops.length := by
  induction hops generalizing amount outputs with
  | nil =>
      rw [← Except.ok.inj h]
      rfl
  | cons hop rest ih =>
      obtain ⟨output, others, -, hothers, rfl⟩ := quoteHops_cons_ok.1 h
      rw [List.length_cons, List.length_cons, ih hothers]

/-- A sized cycle carries the quotes of its hops, and what is left of the last one as profit. -/
theorem quote_of_size {r : Route} {step : Amount} {params : SearchParams} {q : Quote}
    (h : r.size market step params s = .ok q) :
    quoteHops market q.input r.hops s = .ok q.outputs
      ∧ q.profit = (q.outputs.getLastD q.input).saturatingSub q.input := by
  obtain ⟨multiple, -, h⟩ := Query.bind_ok.1 h
  obtain ⟨outputs, houtputs, h⟩ := Query.bind_ok.1 h
  rw [← Except.ok.inj h]
  exact ⟨houtputs, rfl⟩

/-- Where one step is the largest input, it is the size of every cycle. -/
theorem size_of_single {r : Route} {step : Amount} {params : SearchParams} {outputs : List Amount}
    (hsteps : params.mostSteps = 1)
    (hquotes : quoteHops market (step.times 1) r.hops s = .ok outputs) :
    r.size market step params s = .ok ⟨step.times 1, outputs,
      (outputs.getLastD (step.times 1)).saturatingSub (step.times 1)⟩ := by
  have hnarrow : ∀ profit rounds, narrow profit rounds 1 1 s = .ok 1 := by
    intro profit rounds
    cases rounds <;> rfl
  have hmost : max 1 (UInt64.toNat 1) = 1 := rfl
  rw [size, hsteps, hmost, Query.bind_of_ok (hnarrow _ _), quoteMultiple, quote,
    Query.bind_of_ok hquotes]
  rfl

end Route

namespace Amount

/-- Only a smaller amount leaves something of another. -/
theorem saturatingSub_ne_zero {a b : Amount} (h : a.saturatingSub b ≠ 0) :
    b < a ∧ a.saturatingSub b = a - b := by
  rw [saturatingSub] at h ⊢
  split at h
  · rename_i hle
    refine ⟨BitVec.lt_def.2 (Nat.lt_of_le_of_ne hle fun heq => h ?_), if_pos hle⟩
    rw [BitVec.toNat_inj.1 heq]
    exact BitVec.sub_self a
  · exact absurd rfl h

end Amount

/-! ## Found cycles -/

/-- What a search has made sure of about the cycle that it finds. -/
structure Candidate.Promising (market : Market) (budget : BudgetState) (s : Store)
    (c : Candidate) : Prop where
  quotes : Route.quoteHops market c.quote.input c.route.hops s = .ok c.quote.outputs
  earns : c.quote.input < c.quote.outputs.getLastD c.quote.input
  profit : c.quote.profit = c.quote.outputs.getLastD c.quote.input - c.quote.input
  fitsTx : c.cost ≤ budget.pointsPerTx
  fitsBlock : c.cost ≤ budget.remaining

/-- A cycle without hops returns what goes in, and so earns nothing. -/
theorem Candidate.Promising.exists_base {market : Market} {budget : BudgetState} {s : Store}
    {c : Candidate} (h : c.Promising market budget s) : ∃ base, c.route.base? = some base := by
  cases hhops : c.route.hops with
  | nil =>
      have hquotes := h.quotes
      have hearns := h.earns
      rw [hhops] at hquotes
      rw [← Except.ok.inj hquotes] at hearns
      exact absurd hearns (BitVec.lt_irrefl _)
  | cons hop rest => exact ⟨hop.denomIn, by rw [Route.base?, hhops]; rfl⟩

theorem Search.promising_of_found {config : EngineConfig} {market : Market} {trade : Hop}
    {s : Store} {budget : BudgetState} {c : Candidate} (hreadable : Registry.Readable s.get)
    (hbudget : Budget.state s = .ok budget) (hfound : run config market trade s = .ok (.found c)) :
    c.Promising market budget s := by
  obtain ⟨⟨b, -, hpriced⟩, hearns⟩ := priced_of_found hreadable hbudget hfound
  obtain ⟨hquotes, hprofit⟩ := Route.quote_of_size hpriced.quote
  rw [hprofit] at hearns
  obtain ⟨hless, hdifference⟩ := Amount.saturatingSub_ne_zero hearns
  obtain ⟨htx, hblock⟩ := Std.le_min_iff.1 hpriced.available
  exact ⟨hquotes, hless, hprofit.trans hdifference, htx, hblock⟩

/-- A search that finds a cycle has read the budget. -/
theorem Search.state_of_found {config : EngineConfig} {market : Market} {trade : Hop} {s : Store}
    {c : Candidate} (h : run config market trade s = .ok (.found c)) :
    ∃ budget, Budget.state s = .ok budget := by
  rw [run] at h
  split at h
  · cases h
  · obtain ⟨budget, hbudget, -⟩ := Query.bind_ok.1 h
    exact ⟨budget, hbudget⟩

/-! ## Progress -/

/-- Swaps that return what is quoted go through to the end. -/
theorem Candidate.swapAll_succeeds {market : Market} (hkeeps : market.KeepsQuotes)
    (vault : Account) {amount : Amount} {hops : List Hop} {outputs : List Amount} {s : Store}
    (hquotes : Route.quoteHops market amount hops s = .ok outputs) (t : Store) :
    ∃ u, (swapAll market vault amount (hops.zip outputs)).perform t
      = (.ok (outputs.getLastD amount), u) := by
  induction hops generalizing amount outputs t with
  | nil =>
      rw [← Except.ok.inj hquotes]
      exact ⟨t, rfl⟩
  | cons hop rest ih =>
      obtain ⟨output, others, hquote, hothers, rfl⟩ := Route.quoteHops_cons_ok.1 hquotes
      obtain ⟨u, hrest⟩ := ih hothers (t.writeAll (market.swap vault hop amount t.get).2)
      refine ⟨u, ?_⟩
      rw [List.zip_cons_cons, swapAll]
      refine Action.perform_bind_ok.2 ⟨output, _, Action.perform_call_ok.2 ⟨hkeeps hquote, rfl⟩, ?_⟩
      dsimp only
      rw [if_neg (BitVec.not_lt.2 (BitVec.le_refl output)), hrest, List.getLastD_cons]

namespace Coherent

variable {s : Store} {config : EngineConfig} {counted : PointCounter} {e : Engine} {trade : Hop}
  {best : Candidate}

/-- A cycle that fits the budget and returns more than goes in goes through all of its stages,
where after the debit those outside do their part and the profit can be booked. -/
theorem executeFrom_of_calls (h : Coherent s.get config counted) (block : Block)
    (hout : e.StaysOutside) {base : Denom} {output : Amount}
    (hcalls : ∀ debited, (Budget.tryConsume best.cost).perform s = (.ok (), debited) →
      ∃ minted swapped burned,
        (Action.call (e.bank.mint e.vault ⟨base, best.quote.input⟩) fun fault =>
            .executionFailure (.mint ⟨base, best.quote.input⟩ fault)).perform debited
          = (.ok (), minted)
        ∧ (Candidate.swapAll e.market e.vault best.quote.input
            (best.route.hops.zip best.quote.outputs)).perform minted = (.ok output, swapped)
        ∧ (Action.call (e.bank.burn e.vault ⟨base, best.quote.input⟩) fun fault =>
            .executionFailure (.burn ⟨base, best.quote.input⟩ fault)).perform swapped
          = (.ok (), burned))
    (htx : best.cost ≤ config.pointsPerTx)
    (hblock : best.cost ≤ Points.minus config.pointsPerBlock counted.consumed)
    (hless : best.quote.input < output)
    (hfits : (Ledger.earned s.get base).toNat + (output - best.quote.input).toNat < Amount.bound) :
    ∃ split t, (best.executeFrom base e.market e.bank e.vault block).perform s
      = (.ok ⟨best.route, best.quote.input, output, ⟨base, output - best.quote.input⟩, split,
        best.cost⟩, t) := by
  exact h.decodes.executeFrom_of_calls h.genesisTime_ne_none block hout hcalls h.budget.state_eq
    htx hblock hless (h.books.bookable block.time hfits)

/-- Swaps that return what was quoted and a bank that obliges do their part. -/
theorem executeFrom_succeeds (h : Coherent s.get config counted) (block : Block)
    (hout : e.StaysOutside) (hkeeps : e.market.KeepsQuotes) (hobliges : e.bank.Obliges)
    {base : Denom} {quoted : Store} {output : Amount}
    (hquotes : Route.quoteHops e.market best.quote.input best.route.hops quoted
      = .ok best.quote.outputs)
    (houtput : best.quote.outputs.getLastD best.quote.input = output)
    (htx : best.cost ≤ config.pointsPerTx)
    (hblock : best.cost ≤ Points.minus config.pointsPerBlock counted.consumed)
    (hless : best.quote.input < output)
    (hfits : (Ledger.earned s.get base).toNat + (output - best.quote.input).toNat < Amount.bound) :
    ∃ split t, (best.executeFrom base e.market e.bank e.vault block).perform s
      = (.ok ⟨best.route, best.quote.input, output, ⟨base, output - best.quote.input⟩, split,
        best.cost⟩, t) := by
  refine h.executeFrom_of_calls block hout (fun debited _ => ?_) htx hblock hless hfits
  obtain ⟨swapped, hswap⟩ := Candidate.swapAll_succeeds hkeeps e.vault hquotes
    (debited.writeAll (e.bank.mint e.vault ⟨base, best.quote.input⟩ debited.get).2)
  rw [houtput] at hswap
  exact ⟨_, swapped, _, Action.perform_call_ok.2 ⟨hobliges.mint _ _ _, rfl⟩, hswap,
    Action.perform_call_ok.2 ⟨hobliges.burn _ _ _, rfl⟩⟩

/-- A found cycle is one. -/
theorem isCycle_of_found (h : Coherent s.get config counted) {market : Market}
    (hfound : Search.run config market trade s = .ok (.found best)) :
    best.route.IsCycle config.search.mostHops := by
  obtain ⟨⟨b, hin, -⟩, -⟩ := Search.priced_of_found h.readable h.budget.state_eq hfound
  exact hin.isCycle h.registry

/-- A found cycle is executed where those outside oblige and the profit can be booked. -/
theorem execute_succeeds (h : Coherent s.get config counted) (block : Block)
    (hout : e.StaysOutside) (hkeeps : e.market.KeepsQuotes) (hobliges : e.bank.Obliges)
    (hfound : Search.run config e.market trade s = .ok (.found best))
    (hfits : ∀ base, best.route.base? = some base →
      (Ledger.earned s.get base).toNat + best.quote.profit.toNat < Amount.bound) :
    ∃ done t, (best.execute e.market e.bank e.vault block).perform s = (.ok done, t)
      ∧ done.points = best.cost ∧ done.profit.amount = best.quote.profit := by
  have hpromising := Search.promising_of_found h.readable h.budget.state_eq hfound
  obtain ⟨base, hbase⟩ := hpromising.exists_base
  have hopen : Coherent s.openBranch.get config counted := h
  have hroom := hfits base hbase
  rw [hpromising.profit] at hroom
  obtain ⟨split, t, hrun⟩ := hopen.executeFrom_succeeds block hout hkeeps hobliges
    hpromising.quotes rfl hpromising.fitsTx hpromising.fitsBlock hpromising.earns hroom
  exact ⟨_, t.commit, Candidate.execute_ok.2 ⟨base, t, hbase,
    Route.length_of_quoteHops hpromising.quotes, hrun, rfl⟩, rfl, hpromising.profit.symm⟩

end Coherent

end Backrun
