import Backrun.Proofs.Cycle.Unpriced
import Backrun.Proofs.Engine.Attempts
import Backrun.Proofs.Simulation.RoundTrip

/-!
# Attempts that break down

Pools that refuse to name their family or to quote only take cycles out of a search.  So what can
go wrong with an attempt in a reachable state goes wrong while the found cycle is executed, and
not before it has been paid for.

* `BreaksOff`: one of the swaps is refused or returns too little.
* `BreaksDown`: the cycle fails at the loan, at a swap, for want of a profit, at the repayment
  or because the books are full.

No records of the engine are to blame: as long as the calls stay outside its keys, every record
that an attempt reads is there and can be read.
-/

namespace Backrun

/-! ## Debits are made before anything else -/

/-- An error that is not about the budget. -/
def Error.IsUnbudgeted (err : Error) : Prop := err.kind ≠ .budgetExceeded

theorem Error.unbudgeted_executionFailure (setback : Setback) :
    (executionFailure setback).IsUnbudgeted := nofun

namespace Query

variable {α : Type} [Codec α] {k : Bytes} {s : Store} {err : Error}

theorem unbudgeted_load {missing : Missing} (h : load (α := α) k missing s = .error err) :
    err.IsUnbudgeted := by
  rcases load_error h with rfl | rfl <;> exact nofun

end Query

namespace Ledger

open Backrun.Action

theorem unbudgeted_planned {now : Instant} {profit : Coin} {s : Store} {err : Error}
    (h : planned now profit s = .error err) : err.IsUnbudgeted := by
  rcases Query.bind_error.1 h with hconfig | ⟨_, -, h⟩
  · exact Query.unbudgeted_load hconfig
  rcases Query.bind_error.1 h with hdays | ⟨_, -, hreturn⟩
  · rcases Query.bind_error.1 hdays with hgenesis | ⟨_, -, hreturn⟩
    · exact Query.unbudgeted_load hgenesis
    · cases hreturn
  · cases hreturn

theorem unbudgeted_book (now : Instant) (profit : Coin) :
    FailsWith Error.IsUnbudgeted (book now profit) := by
  intro s err t h
  cases book_iff.1 h with
  | unplanned hplan => exact unbudgeted_planned hplan
  | shareRejected _ _ hrejects => cases hrejects <;> exact nofun
  | profitRejected _ _ hrejects => cases hrejects <;> exact nofun

theorem unbudgeted_countTrade : FailsWith Error.IsUnbudgeted countTrade := by
  refine .bind (.query fun s err h => ?_) fun count =>
    .bind (.total (.update _)) fun _ => .total (.pure _)
  rcases Query.bind_error.1 h with hfind | ⟨found, -, h⟩
  · rw [Query.find_error hfind]
    exact nofun
  · cases found <;> cases h

end Ledger

namespace Candidate

open Backrun.Action

variable {market : Market} {bank : Bank} {vault : Account} {block : Block} {c : Candidate}
  {s t : Store} {err : Error}

theorem unbudgeted_swapAll (amount : Amount) (hops : List (Hop × Amount)) :
    FailsWith Error.IsUnbudgeted (swapAll market vault amount hops) := by
  induction hops generalizing amount with
  | nil => exact .total (.pure amount)
  | cons hop rest ih =>
      refine .bind (.call fun _ => Error.unbudgeted_executionFailure _) fun output => ?_
      dsimp only
      split
      · exact .bind (.throw (Error.unbudgeted_executionFailure _)) fun _ => ih output
      · exact ih output

/-- Behind its debit a cycle does not fail for want of points, whatever the calls have written. -/
theorem unbudgeted_of_debit {base : Denom} {debited : Store}
    (hdebit : (Budget.tryConsume c.cost).perform s = (.ok (), debited))
    (h : (c.executeFrom base market bank vault block).perform s = (.error err, t)) :
    err.IsUnbudgeted := by
  have hrest : ∀ output : Amount, FailsWith (α := Trade) Error.IsUnbudgeted do
      Action.call (bank.burn vault ⟨base, c.quote.input⟩) fun fault =>
        .executionFailure (.burn ⟨base, c.quote.input⟩ fault)
      let split ← Ledger.book block.time ⟨base, output - c.quote.input⟩
      let _ ← Ledger.countTrade
      return ⟨c.route, c.quote.input, output, ⟨base, output - c.quote.input⟩, split, c.cost⟩ :=
    fun output => .bind (.call fun _ => Error.unbudgeted_executionFailure _) fun _ =>
      .bind (Ledger.unbudgeted_book _ _) fun split =>
        .bind Ledger.unbudgeted_countTrade fun _ => .total (.pure _)
  rw [executeFrom, Action.perform_bind_of_ok hdebit] at h
  refine FailsWith.bind (.call fun _ => Error.unbudgeted_executionFailure _)
    (fun _ => .bind (unbudgeted_swapAll _ _) fun output => ?_) h
  dsimp only
  split
  · exact .bind (.throw (Error.unbudgeted_executionFailure _)) fun _ => hrest output
  · exact hrest output

/-- A cycle that starts somewhere and has a quote for each hop fails in its branch. -/
theorem execute_error {base : Denom} (hbase : c.route.base? = some base)
    (hlength : c.quote.outputs.length = c.route.hops.length)
    (h : (c.execute market bank vault block).perform s = (.error err, t)) :
    ∃ u, (c.executeFrom base market bank vault block).perform s.openBranch = (.error err, u) := by
  rw [execute, Action.perform_atomically, hbase] at h
  dsimp only at h
  rw [if_neg (not_not_intro hlength)] at h
  rcases hrun : (c.executeFrom base market bank vault block).perform s.openBranch with
    ⟨err' | done, u⟩
  · rw [hrun] at h
    cases congrArg Prod.fst h
    exact ⟨u, rfl⟩
  · rw [hrun] at h
    cases congrArg Prod.fst h

/-! ## Swaps that break off -/

/-- Swaps around a cycle break off with an error in a store. -/
inductive BreaksOff (market : Market) (vault : Account) :
    Amount → List (Hop × Amount) → Store → Error → Prop
  /-- The pool refuses. -/
  | refused {amount quoted : Amount} {hop : Hop} {rest : List (Hop × Amount)} {s : Store}
      {fault : Fault} (hswap : (market.swap vault hop amount s.get).1 = .error fault) :
      BreaksOff market vault amount ((hop, quoted) :: rest) s (.executionFailure (.swap hop fault))
  /-- The pool returns less than was quoted. -/
  | slipped {amount quoted output : Amount} {hop : Hop} {rest : List (Hop × Amount)} {s : Store}
      (hswap : (market.swap vault hop amount s.get).1 = .ok output) (hless : output < quoted) :
      BreaksOff market vault amount ((hop, quoted) :: rest) s
        (.executionFailure (.slipped hop output quoted))
  /-- The pool returns enough, and a later swap breaks off. -/
  | later {amount quoted output : Amount} {hop : Hop} {rest : List (Hop × Amount)} {s : Store}
      {err : Error} (hswap : (market.swap vault hop amount s.get).1 = .ok output)
      (henough : quoted ≤ output)
      (hrest : BreaksOff market vault output rest
        (s.writeAll (market.swap vault hop amount s.get).2) err) :
      BreaksOff market vault amount ((hop, quoted) :: rest) s err

/-- Swaps that fail break off. -/
theorem breaksOff_of_swapAll {amount : Amount} {hops : List (Hop × Amount)}
    (h : (swapAll market vault amount hops).perform s = (.error err, t)) :
    BreaksOff market vault amount hops s err := by
  induction hops generalizing amount s with
  | nil => cases congrArg Prod.fst h
  | cons hop rest ih =>
      obtain ⟨hop, quoted⟩ := hop
      rcases Action.perform_bind_error.1 h with hrefused | ⟨output, u, hswap, h⟩
      · obtain ⟨fault, hfault, rfl, -⟩ := Action.perform_call_error.1 hrefused
        exact .refused hfault
      · obtain ⟨houtput, rfl⟩ := Action.perform_call_ok.1 hswap
        dsimp only at h
        split at h
        · rename_i hless
          cases congrArg Prod.fst h
          exact .slipped houtput hless
        · rename_i henough
          exact .later houtput (BitVec.not_lt.1 henough) (ih h)

/-- Swaps break off with failures of the execution only. -/
theorem BreaksOff.kind_eq {amount : Amount} {hops : List (Hop × Amount)}
    (h : BreaksOff market vault amount hops s err) : err.kind = .executionFailure := by
  induction h with
  | refused => rfl
  | slipped => rfl
  | later _ _ _ ih => exact ih

/-! ## Cycles that break down -/

/-- A cycle from a base denomination has been paid for and its input borrowed. -/
def Lends (e : Engine) (base : Denom) (c : Candidate) (s minted : Store) : Prop :=
  ∃ debited, (Budget.tryConsume c.cost).perform s = (.ok (), debited)
    ∧ (Action.call (e.bank.mint e.vault ⟨base, c.quote.input⟩) fun fault =>
        .executionFailure (.mint ⟨base, c.quote.input⟩ fault)).perform debited = (.ok (), minted)

/-- A cycle has been traded around, with what came out of it in the end. -/
def Trades (e : Engine) (base : Denom) (c : Candidate) (s swapped : Store) (output : Amount) :
    Prop :=
  ∃ minted, c.Lends e base s minted
    ∧ (swapAll e.market e.vault c.quote.input (c.route.hops.zip c.quote.outputs)).perform minted
      = (.ok output, swapped)

/-- A cycle from a base denomination breaks down with an error in a store. -/
inductive BreaksDown (e : Engine) (block : Block) (base : Denom) (c : Candidate) (s : Store) :
    Error → Prop
  /-- The bank refuses the loan. -/
  | mint {debited : Store} {fault : Fault}
      (hdebit : (Budget.tryConsume c.cost).perform s = (.ok (), debited))
      (hmint : (e.bank.mint e.vault ⟨base, c.quote.input⟩ debited.get).1 = .error fault) :
      BreaksDown e block base c s (.executionFailure (.mint ⟨base, c.quote.input⟩ fault))
  /-- A swap is refused or slips. -/
  | swaps {minted : Store} {err : Error} (hlent : c.Lends e base s minted)
      (hswaps : BreaksOff e.market e.vault c.quote.input (c.route.hops.zip c.quote.outputs)
        minted err) : BreaksDown e block base c s err
  /-- No more comes out than went in. -/
  | noProfit {swapped : Store} {output : Amount} (htraded : c.Trades e base s swapped output)
      (hless : output ≤ c.quote.input) :
      BreaksDown e block base c s (.executionFailure (.noProfit output c.quote.input))
  /-- The bank refuses the repayment. -/
  | burn {swapped : Store} {output : Amount} {fault : Fault}
      (htraded : c.Trades e base s swapped output) (hearns : c.quote.input < output)
      (hburn : (e.bank.burn e.vault ⟨base, c.quote.input⟩ swapped.get).1 = .error fault) :
      BreaksDown e block base c s (.executionFailure (.burn ⟨base, c.quote.input⟩ fault))
  /-- The profit does not fit into the books. -/
  | books {swapped : Store} {output : Amount} {err : Error}
      (htraded : c.Trades e base s swapped output) (hearns : c.quote.input < output)
      (hfull : Ledger.Overflows block.time ⟨base, output - c.quote.input⟩ s err) :
      BreaksDown e block base c s err

/-- A cycle breaks down with a failure of its execution or with a full counter. -/
theorem BreaksDown.kind_eq {e : Engine} {base : Denom} (h : c.BreaksDown e block base s err) :
    err.kind = .executionFailure ∨ err.kind = .store := by
  cases h with
  | mint => exact .inl rfl
  | swaps _ hswaps => exact .inl hswaps.kind_eq
  | noProfit => exact .inl rfl
  | burn => exact .inl rfl
  | books _ _ hfull => cases hfull <;> exact .inr rfl

end Candidate

/-- Which book is full depends on four records. -/
theorem Ledger.Overflows.congr {now : Instant} {profit : Coin} {s t : Store} {err : Error}
    (h : Overflows now profit t err) (hconfig : t.get Key.config = s.get Key.config)
    (htime : t.get Key.genesisTime = s.get Key.genesisTime)
    (hfees : t.get (Key.developerFees profit.denom) = s.get (Key.developerFees profit.denom))
    (hprofits : t.get (Key.profits profit.denom) = s.get (Key.profits profit.denom)) :
    Overflows now profit s err := by
  have howed : owed t.get profit.denom = owed s.get profit.denom := amountAt_congr hfees
  have hearned : earned t.get profit.denom = earned s.get profit.denom := amountAt_congr hprofits
  cases h with
  | fees hstored hdays hfull =>
      rw [howed] at hfull
      exact .fees ((Query.load_congr hconfig _).symm.trans hstored)
        ((daysSinceGenesis_congr htime now).symm.trans hdays) hfull
  | profits hfull =>
      rw [hearned] at hfull
      exact .profits hfull

/-- In a store in order, where the calls stay outside, a cycle within the budget fails only by
breaking down. -/
theorem Coherent.breaksDown {s t : Store} {config : EngineConfig} {counted : PointCounter}
    (h : Coherent s.get config counted) {e : Engine} (hout : e.StaysOutside) {block : Block}
    {base : Denom} {c : Candidate} {debited : Store} {err : Error}
    (hdebit : (Budget.tryConsume c.cost).perform s = (.ok (), debited))
    (hfails : (c.executeFrom base e.market e.bank e.vault block).perform s = (.error err, t)) :
    c.BreaksDown e block base s err := by
  rw [Candidate.executeFrom, Action.perform_bind_of_ok hdebit] at hfails
  rcases Action.perform_bind_error.1 hfails with hrefused | ⟨_, minted, hmint, hfails⟩
  · obtain ⟨fault, hfault, rfl, -⟩ := Action.perform_call_error.1 hrefused
    exact .mint hdebit hfault
  have hlent : c.Lends e base s minted := ⟨debited, hdebit, hmint⟩
  rcases Action.perform_bind_error.1 hfails with hswaps | ⟨output, swapped, hswap, hfails⟩
  · exact .swaps hlent (Candidate.breaksOff_of_swapAll hswaps)
  have htraded : c.Trades e base s swapped output := ⟨minted, hlent, hswap⟩
  dsimp only at hfails
  split at hfails
  · rename_i hless
    cases congrArg Prod.fst hfails
    exact .noProfit htraded hless
  rename_i hearns
  have hearns := BitVec.not_le.1 hearns
  rcases Action.perform_bind_error.1 hfails with hrefused | ⟨_, burned, hburn, hfails⟩
  · obtain ⟨fault, hfault, rfl, -⟩ := Action.perform_call_error.1 hrefused
    exact .burn htraded hearns hfault
  -- The calls have left the records alone, so that nothing but a full counter is in the way.
  obtain ⟨counted', hdebited, -, hframe⟩ := h.debit hdebit
  have houtside := Candidate.sameEngine_of_stages hout hmint hswap hburn
  have hburned : Coherent burned.get config counted' := hdebited.congr houtside
  have hrecord : ∀ {kind : UInt8} {k : Bytes}, Key.kind k = some kind → 0x01 ≤ kind → kind ≤ 0x09 →
      kind ≠ 0x05 → burned.get k = s.get k := fun hk hlow hhigh hne =>
    (houtside _ ⟨_, hlow, hhigh, hk⟩).trans (hframe _ (Key.kind_ne hk hne))
  obtain ⟨time, htime⟩ := hburned.decodes.exists_genesisTime hburned.genesisTime_ne_none
  have hdays := Ledger.daysSinceGenesis_ok htime block.time
  rcases Action.perform_bind_error.1 hfails with hbook | ⟨split, booked, hbook, hfails⟩
  · refine .books htraded hearns (Ledger.Overflows.congr (Ledger.book_error
      hburned.budget.storedConfig_eq hdays hburned.decodes.fees hburned.decodes.profits hbook)
      ?_ ?_ ?_ ?_)
    · exact hrecord Key.kind_config (by decide) (by decide) (by decide)
    · exact hrecord Key.kind_genesisTime (by decide) (by decide) (by decide)
    · exact hrecord (Key.kind_developerFees base) (by decide) (by decide) (by decide)
    · exact hrecord (Key.kind_profits base) (by decide) (by decide) (by decide)
  · obtain ⟨hbooked, -⟩ := hburned.books.book hbook
    obtain ⟨count, last, hcount⟩ := Ledger.countTrade_of_legible hbooked.dated.legibleTrades
    rw [Action.perform_bind_of_ok hcount] at hfails
    cases congrArg Prod.fst hfails

/-! ## Attempts -/

namespace Coherent

variable {s t : Store} {config : EngineConfig} {counted : PointCounter} {trade : Hop}
  {c : Candidate}

/-- What a search has found can be debited in the store in which it has found it. -/
theorem exists_debited (h : Coherent s.get config counted) {market : Market}
    (hfound : Search.run config market trade s = .ok (.found c)) :
    ∃ debited, (Budget.tryConsume c.cost).perform s = (.ok (), debited) := by
  have hpromising := Search.promising_of_found h.readable h.budget.state_eq hfound
  exact ⟨_, Budget.tryConsume_ok.2
    ⟨_, h.budget.state_eq, hpromising.fitsTx, hpromising.fitsBlock, rfl⟩⟩

/-- A found cycle fails in its branch, behind its debit. -/
theorem execute_error (h : Coherent s.get config counted) {e : Engine} {block : Block}
    {err : Error} (hfound : Search.run config e.market trade s = .ok (.found c))
    (hfails : (c.execute e.market e.bank e.vault block).perform s = (.error err, t)) :
    ∃ base debited u, c.route.base? = some base
      ∧ (Budget.tryConsume c.cost).perform s.openBranch = (.ok (), debited)
      ∧ (c.executeFrom base e.market e.bank e.vault block).perform s.openBranch
        = (.error err, u) := by
  have hpromising := Search.promising_of_found h.readable h.budget.state_eq hfound
  obtain ⟨base, hbase⟩ := hpromising.exists_base
  obtain ⟨u, hrun⟩ := Candidate.execute_error hbase (Route.length_of_quoteHops hpromising.quotes)
    hfails
  have hstate : Budget.state s.openBranch = .ok _ :=
    Budget.state_congr h.budget.state_eq rfl rfl
  exact ⟨base, _, u, hbase, Budget.tryConsume_ok.2
    ⟨_, hstate, hpromising.fitsTx, hpromising.fitsBlock, rfl⟩, hrun⟩

/-- An attempt is over the budget exactly if its search finds it exhausted. -/
theorem budgetExceeded_iff (h : Coherent s.get config counted) (e : Engine) (block : Block)
    (trade : Hop) :
    (∃ t, e.postTrade block trade s = (.budgetExceeded, t))
      ↔ config.enabled = true ∧ Search.run config e.market trade
        (Engine.countedFor block counted s) = .ok .budgetExhausted := by
  constructor
  · rintro ⟨t, hexceeded⟩
    have hattempted := Engine.attempted h e block trade
    rw [hexceeded] at hattempted
    cases hattempted with
    | exhausted henabled hsearch => exact ⟨henabled, hsearch⟩
    | futile hanswer => simp at hanswer
    | broken hfinds hrun hanswer =>
        -- A found cycle that fails behind its debit does not fail for want of points.
        obtain ⟨config', counted', hconfig, -, -, hfound⟩ := hfinds
        obtain rfl := h.budget.config_unique hconfig
        obtain ⟨base, debited, last, -, hdebit, hfails⟩ :=
          (h.countedFor block).execute_error hfound hrun
        exact absurd (Engine.kind_of_ofAttempt_budgetExceeded hanswer)
          (Candidate.unbudgeted_of_debit hdebit hfails)
  · rintro ⟨henabled, hsearch⟩
    rw [Engine.postTrade_of_counter e block trade s h.budget.storedConfig_eq henabled
      h.budget.counter_eq, Engine.searchAndExecute, Action.perform_query_bind_of_ok hsearch]
    exact ⟨_, rfl⟩

/-- An attempt whose calls stay outside is given up only if the found cycle breaks down. -/
theorem breaksDown_of_failed (h : Coherent s.get config counted) {e : Engine}
    (hout : e.StaysOutside) {block : Block} {err : Error}
    (hfailed : e.postTrade block trade s = (.failed err, t)) :
    ∃ c base, e.Finds block trade s t c ∧ c.route.base? = some base
      ∧ c.BreaksDown e block base t.openBranch err := by
  obtain ⟨u, c, hfinds, hrun⟩ := Engine.finds_of_failed h hfailed
  obtain rfl := Candidate.clean_execute _ _ _ _ c hrun
  have ⟨config', counted', hconfig, hcounted, hbegun, hfound⟩ := hfinds
  obtain rfl := h.budget.config_unique hconfig
  obtain rfl := h.budget.counter_unique hcounted
  subst hbegun
  obtain ⟨base, debited, last, hbase, hdebit, hfails⟩ :=
    (h.countedFor block).execute_error hfound hrun
  have hopen : Coherent (Engine.countedFor block counted s).openBranch.get config
      (counted.inBlock block) := h.countedFor block
  exact ⟨c, base, hfinds, hbase, hopen.breaksDown hout hdebit hfails⟩

end Coherent

/-- A search comes to an outcome, and where it has points to spend and cycles to try, to the same
one without any of the cycles that drop out. -/
def Search.Tolerates (config : EngineConfig) (market : Market) (trade : Hop) (s : Store) : Prop :=
  ∃ outcome budget tried, run config market trade s = .ok outcome ∧ Budget.state s = .ok budget
    ∧ proposals config trade s = .ok tried
    ∧ (config.enabled = true → budget.remaining ≠ 0 → tried ≠ [] →
      ∀ keep : Proposal × BaseDenom → Bool,
        (∀ c ∈ tried, keep c = false → DropsOut config market budget.available s c.1 c.2) →
        ∃ kept, priceAll config market budget.available (tried.filter keep) s = .ok kept
          ∧ outcome = conclude kept)

theorem Coherent.tolerates {s : Store} {config : EngineConfig} {counted : PointCounter}
    (h : Coherent s.get config counted) (market : Market) (trade : Hop) :
    Search.Tolerates config market trade s := by
  have hbudget := h.budget.state_eq
  obtain ⟨outcome, houtcome⟩ := Search.exists_run_ok h.readable hbudget config market trade
  obtain ⟨tried, htried, -⟩ := Search.proposals_ok h.readable config trade
  refine ⟨outcome, _, tried, houtcome, hbudget, htried,
    fun henabled hleft hsome keep hdropped => ?_⟩
  obtain ⟨pricings, hall, -, -⟩ := Search.priceAll_ok config market
    (BudgetState.available ⟨config.pointsPerTx, config.pointsPerBlock, counted.consumed,
      counted.height⟩) s tried
  obtain ⟨kept, hkept, hconclude⟩ := Search.conclude_eq_of_dropped keep hdropped hall
  refine ⟨kept, hkept, ?_⟩
  rw [Search.run, if_neg (not_not_intro henabled), Query.bind_of_ok hbudget, if_neg hleft,
    Query.bind_of_ok htried, if_neg (mt List.isEmpty_iff.1 hsome), Query.bind_of_ok hall]
    at houtcome
  rw [hconclude]
  exact (Except.ok.inj houtcome).symm

/-- **Faults outside.**  In every reachable state, whatever pools answer, a search comes to an
outcome, in which a cycle without a cost or a quote merely plays no part, and what it finds can be
debited.  An attempt is over the budget exactly if its search finds it exhausted.  It is given up
only because the found cycle breaks down, at a call or over a full counter, and never for want of a
record that is there and can be read. -/
theorem Reached.faults_stay_outside {g : Genesis} {s : Store} (hreached : Reached g s) :
    ∃ config counted, storedConfig s = .ok config ∧ Budget.counter s = .ok counted
      ∧ (∀ market trade, Search.Tolerates config market trade s)
      ∧ (∀ market trade c, Search.run config market trade s = .ok (.found c) →
        ∃ debited, (Budget.tryConsume c.cost).perform s = (.ok (), debited))
      ∧ (∀ (e : Engine) block trade, (∃ t, e.postTrade block trade s = (.budgetExceeded, t))
        ↔ config.enabled = true ∧ Search.run config e.market trade
          (Engine.countedFor block counted s) = .ok .budgetExhausted)
      ∧ ∀ (e : Engine) block trade err t, e.StaysOutside →
        e.postTrade block trade s = (.failed err, t) →
          (err.kind = .executionFailure ∨ err.kind = .store)
          ∧ ∃ c base, e.Finds block trade s t c ∧ c.route.base? = some base
            ∧ c.BreaksDown e block base t.openBranch err := by
  obtain ⟨config, counted, h⟩ := hreached.coherent
  refine ⟨config, counted, h.budget.storedConfig_eq, h.budget.counter_eq, h.tolerates,
    fun market trade c hfound => h.exists_debited hfound, h.budgetExceeded_iff,
    fun e block trade err t hout hfailed => ?_⟩
  obtain ⟨c, base, hfinds, hbase, hbreaks⟩ := h.breaksDown_of_failed hout hfailed
  exact ⟨hbreaks.kind_eq, c, base, hfinds, hbase, hbreaks⟩

/-! ## A bank that refuses -/

namespace Simulation

/-- A bank that lends nothing, among generous pools. -/
def stingy : Engine :=
  { generous with bank := { freeBank with mint := fun _ _ => Effect.refuse "no funds" } }

theorem stingy_staysOutside : stingy.StaysOutside where
  market := generous_staysOutside.market
  bank := ⟨fun _ _ _ _ _ => nofun, fun _ _ _ _ => nofun, fun _ _ _ _ => nofun⟩

/-- The round trip is found, and given up for want of a loan. -/
theorem Turning.stingy_fails {s : Store} (h : Turning s 10 .zero 0) :
    stingy.postTrade ⟨0, .epoch⟩ ⟨1, atom, osmo⟩ s
      = (.failed (.executionFailure (.mint ⟨atom, 1⟩ "no funds")), s) := by
  have hfound : Search.run (tight 10) generousPools ⟨1, atom, osmo⟩ s
      = .ok (.found roundTripCandidate) :=
    h.found (by decide) rfl (fun _ hfive => roundTrip_pricedFrom hfive) (by decide)
  have hfinds : stingy.Finds ⟨0, .epoch⟩ ⟨1, atom, osmo⟩ s s roundTripCandidate :=
    ⟨tight 10, .zero, h.coherent.budget.storedConfig_eq, h.coherent.budget.counter_eq, rfl, hfound⟩
  have hopen : Coherent s.openBranch.get (tight 10) .zero := h.coherent
  have hbase : roundTripCandidate.route.base? = some atom := rfl
  have hdebit : (Budget.tryConsume roundTripCandidate.cost).perform s.openBranch = (.ok (), _) :=
    Budget.tryConsume_ok.2 ⟨_, hopen.budget.state_eq, by decide, by decide, rfl⟩
  have hrefused : ∃ u, (roundTripCandidate.executeFrom atom stingy.market stingy.bank stingy.vault
      ⟨0, .epoch⟩).perform s.openBranch
        = (.error (.executionFailure (.mint ⟨atom, 1⟩ "no funds")), u) := by
    rw [Candidate.executeFrom, Action.perform_bind_of_ok hdebit]
    exact ⟨_, Action.perform_bind_of_error (Action.perform_call_of_error rfl _) _⟩
  obtain ⟨u, hrefused⟩ := hrefused
  exact hfinds.failed (Candidate.execute_of_error hbase rfl hrefused)

end Simulation

/-- A bank that lends nothing makes the found cycle break down at its loan. -/
theorem Reached.faults_stay_outside_stingy :
    ∃ (s t : Store) (c : Candidate) (base : Denom),
      Reached (Simulation.routeGenesis (Simulation.tight 10) Simulation.roundTrip) s
      ∧ Simulation.stingy.postTrade ⟨0, .epoch⟩ ⟨1, Simulation.atom, Simulation.osmo⟩ s
        = (.failed (.executionFailure (.mint ⟨Simulation.atom, 1⟩ "no funds")), t)
      ∧ c.route.base? = some base
      ∧ c.BreaksDown Simulation.stingy ⟨0, .epoch⟩ base t.openBranch
        (.executionFailure (.mint ⟨Simulation.atom, 1⟩ "no funds")) := by
  obtain ⟨s, hgenesis, hturning⟩ :=
    Simulation.exists_turning Simulation.validate_roundTripGenesis
  have hreached := Reached.imported hgenesis
  obtain ⟨_, _, -, -, -, -, -, hgiven⟩ := faults_stay_outside hreached
  obtain ⟨-, c, base, -, hbase, hbreaks⟩ := hgiven _ _ _ _ _ Simulation.stingy_staysOutside
    hturning.stingy_fails
  exact ⟨s, s, c, base, hreached, hturning.stingy_fails, hbase, hbreaks⟩

end Backrun
