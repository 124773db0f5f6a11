import Backrun.Proofs.Cycle.Recorded
import Backrun.Proofs.Ledger.Totals
import Backrun.Proofs.Simulation.RoundTrip

/-!
# The accounts of a run

The books against the answers of the engine.  Whatever is asked of it, and whatever the pools
and the bank refuse: in each denomination the profits are those of genesis and of all
executed cycles, and what is owed to the developer, together with all that was paid out, is
what genesis owed and the developer's shares of all executed cycles.

* `Accounted` — the change of the books between two stores, as trades and payments.
* `Coherent.accounted_leave` — one call: what it answers is what it does to the books.
* `Coherent.accounted_leaveAll` — any number of calls, by induction.
* `Call.leave_of_futile` — an attempt that executes nothing, a change or a withdrawal that
  fails leaves the store itself, but for a count of points started anew.

Amounts are compared as numbers, so that no sum can wrap.  The number of trades is a word:
it is the number of executed cycles as long as a word holds it.
-/

namespace Backrun

/-! ## What is answered -/

namespace Reply

/-- The cycles that were executed, one or none. -/
def trades : Reply → List Trade
  | .afterTrade (.executed done) => [done]
  | _ => []

/-- The coins that were paid to the developer. -/
def payments : Reply → List Coin
  | .paid (.ok coins) => coins
  | _ => []

/-- Whether nothing was executed, changed or paid. -/
def IsFutile : Reply → Prop
  | .afterTrade outcome => outcome.trade? = none
  | .changed result => ∃ e, result = .error e
  | .paid result => ∃ e, result = .error e

theorem trades_of_none {outcome : PostTrade} (h : outcome.trade? = none) :
    (Reply.afterTrade outcome).trades = [] := by
  cases outcome with
  | executed done => exact absurd h (by simp [PostTrade.trade?])
  | _ => rfl

/-- An answer with points is that of an executed cycle. -/
theorem length_trades_of_points {reply : Reply} (h : reply.points ≠ 0) :
    reply.trades.length = 1 := by
  match reply with
  | .afterTrade (.executed done) => rfl
  | .afterTrade .disabled | .afterTrade .noRoutes | .afterTrade .budgetExceeded
  | .afterTrade .notProfitable | .afterTrade (.failed _) | .changed _ | .paid _ =>
      exact absurd rfl h

end Reply

namespace Call

/-- What calls in order answer. -/
def replies : List Call → Store → List Reply
  | [], _ => []
  | c :: calls, s => c.reply s :: replies calls (c.leave s)

/-- The cycles that calls in order execute. -/
def tradesBy (calls : List Call) (s : Store) : List Trade := (replies calls s).flatMap Reply.trades

/-- The coins that calls in order pay to the developer. -/
def paymentsBy (calls : List Call) (s : Store) : List Coin :=
  (replies calls s).flatMap Reply.payments

@[simp]
theorem tradesBy_cons (c : Call) (calls : List Call) (s : Store) :
    tradesBy (c :: calls) s = (c.reply s).trades ++ tradesBy calls (c.leave s) := rfl

@[simp]
theorem paymentsBy_cons (c : Call) (calls : List Call) (s : Store) :
    paymentsBy (c :: calls) s = (c.reply s).payments ++ paymentsBy calls (c.leave s) := rfl

end Call

/-! ## The change of the books -/

/-- How the books have changed from one store to another: the profits of the trades were earned,
the developer's shares of them were credited and the payments taken off, and the trades were
counted. -/
structure Accounted (s t : Store) (trades : List Trade) (paid : List Coin) : Prop where
  earned : ∀ d, (Ledger.earned t.get d).toNat
    = (Ledger.earned s.get d).toNat + Coin.totalIn d (trades.map fun done => done.profit)
  owed : ∀ d, (Ledger.owed t.get d).toNat + Coin.totalIn d paid
    = (Ledger.owed s.get d).toNat + Coin.totalIn d (trades.map fun done => done.split.developer)
  count : ∀ n, Ledger.trades s = .ok n → Ledger.trades t = .ok (n + UInt64.ofNat trades.length)
  splits : ∀ done ∈ trades, done.split.Splits done.profit

namespace Accounted

variable {s t u : Store} {trades more : List Trade} {paid others : List Coin}

/-- Books that are the same account for nothing. -/
theorem of_same (h : ∀ k, Key.IsBook k → t.get k = s.get k) : Accounted s t [] [] where
  earned d := by
    rw [(Coherent.ledger_congr h d).2]
    rfl
  owed d := by
    rw [(Coherent.ledger_congr h d).1]
    rfl
  count n hn := by
    rw [Ledger.trades_congr (h _ (.inr (.inr (.inl Key.kind_tradeCount)))), hn]
    exact congrArg Except.ok (UInt64.add_zero n).symm
  splits := nofun

theorem refl (s : Store) : Accounted s s [] [] := of_same fun _ _ => rfl

/-- One change after the other accounts for both. -/
theorem trans (hst : Accounted s t trades paid) (htu : Accounted t u more others) :
    Accounted s u (trades ++ more) (paid ++ others) where
  earned d := by
    rw [htu.earned, hst.earned, List.map_append, Coin.totalIn_append, Nat.add_assoc]
  owed d := by
    have hfirst := hst.owed d
    have hsecond := htu.owed d
    rw [List.map_append, Coin.totalIn_append, Coin.totalIn_append]
    omega
  count n hn := by
    rw [htu.count _ (hst.count n hn), List.length_append, UInt64.ofNat_add, UInt64.add_assoc]
  splits done hdone := (List.mem_append.1 hdone).elim (hst.splits done) (htu.splits done)

end Accounted

/-! ## One call -/

namespace Coherent

variable {s t : Store} {config : EngineConfig} {counted : PointCounter} {e : Engine}

/-- An executed cycle accounts for itself. -/
theorem accounted_execute (h : Coherent s.get config counted) (hout : e.StaysOutside)
    {block : Block} {best : Candidate} {done : Trade}
    (hdone : (best.execute e.market e.bank e.vault block).perform s = (.ok done, t)) :
    Accounted s t [done] [] := by
  obtain ⟨counted', -, hsettled⟩ := h.execute hout hdone
  obtain ⟨-, hposted, ⟨n, hn, hn'⟩, -⟩ := Candidate.execute_recorded hout hdone
  refine ⟨fun d => hsettled.earned d, fun d => ?_, fun n' hcount => ?_, fun other hother => ?_⟩
  · have hshare : Coin.amountIn d done.split.developer
        = if d = done.profit.denom then done.split.developer.amount.toNat else 0 := by
      rw [Coin.amountIn, hposted.splits.developer]
    rw [List.map_singleton, Coin.totalIn_cons, Coin.totalIn_nil, hshare, hsettled.owed d]
    rfl
  · rw [hn] at hcount
    cases hcount
    exact hn'
  · rw [List.mem_singleton.1 hother]
    exact hposted.splits

/-- An attempt accounts for the cycle that it executes, if any. -/
theorem accounted_postTrade (h : Coherent s.get config counted) (hout : e.StaysOutside)
    (block : Block) (trade : Hop) :
    Accounted s (e.postTrade block trade s).2
      (Reply.afterTrade (e.postTrade block trade s).1).trades [] := by
  have hcourse := Engine.postTrade_course e block trade s
  generalize (e.postTrade block trade s).1 = outcome at hcourse
  generalize (e.postTrade block trade s).2 = t at hcourse
  -- Starting the count anew is no matter of the books.
  have hbegun : Accounted s (Engine.countedFor block counted s) [] [] :=
    .of_same fun k hk => Engine.get_countedFor hk.kind_ne block counted s
  cases hcourse with
  | idle hnone =>
      rw [Reply.trades_of_none hnone]
      exact .refl s
  | searched hnone _ _ hcounted =>
      obtain rfl := h.budget.counter_unique hcounted
      rw [Reply.trades_of_none hnone]
      exact hbegun
  | executed hconfig _ hcounted _ hdone =>
      obtain rfl := h.budget.config_unique hconfig
      obtain rfl := h.budget.counter_unique hcounted
      exact hbegun.trans ((h.countedFor block).accounted_execute hout hdone)

/-- A withdrawal pays what is owed, and nothing is owed after it. -/
theorem accounted_payFees (h : Coherent s.get config counted) (hout : e.StaysOutside)
    {caller : Account} {paid : List Coin}
    (hpaid : (Ledger.payFees e.bank e.vault caller).perform s = (.ok paid, t)) :
    Accounted s t [] paid := by
  obtain ⟨hnone, hframe⟩ := payFees_frame (fun c => hout.bank.transfer _ _ c) hpaid
  obtain ⟨_, recorded, _, -, -, hrecorded, rfl, -, -⟩ := Ledger.payFees_ok.1 hpaid
  obtain ⟨recorded', hrecorded', -, howed⟩ := h.books.allFees
  rw [hrecorded] at hrecorded'
  cases hrecorded'
  have hother : ∀ k, Key.IsEngine k → Key.kind k ≠ some 0x06 → t.get k = s.get k := hframe
  refine ⟨fun d => ?_, fun d => ?_, fun n hn => ?_, nofun⟩
  · have hkey := hother (Key.profits d) (Key.isEngine_of_kind (Key.kind_profits d))
      (Key.kind_ne (Key.kind_profits d))
    rw [Ledger.earned, Ledger.amountAt_congr hkey]
    rfl
  · rw [Ledger.owed, Ledger.amountAt_of_none (hnone _ (Key.kind_developerFees d)),
      Coin.totalIn_filter_nonzero, howed d]
    exact Nat.zero_add _
  · have hkey := hother Key.tradeCount (Key.isEngine_of_kind Key.kind_tradeCount)
      (Key.kind_ne Key.kind_tradeCount)
    rw [Ledger.trades_congr hkey, hn]
    exact congrArg Except.ok (UInt64.add_zero n).symm

/-- Every operation accounts for what it answers. -/
theorem accounted_leave (h : Coherent s.get config counted) {c : Call}
    (hout : c.engine.StaysOutside) :
    Accounted s (c.leave s) (c.reply s).trades (c.reply s).payments := by
  obtain ⟨e, op⟩ := c
  cases op with
  | postTrade block trade => exact h.accounted_postTrade hout block trade
  | govern caller change =>
      change Accounted s ((change.action e.authority caller).perform s).2 [] []
      rcases hrun : (change.action e.authority caller).perform s with ⟨err | _, t⟩
      · obtain rfl := Governance.clean_change change hrun
        exact .refl t
      · exact .of_same fun k hk => Governance.frame_of_change hrun
          (fun hb => hb.elim hk.kind_ne hk.kind_ne)
          (fun hr => hr.elim hk.kind_ne fun hr => hr.elim hk.kind_ne hk.kind_ne)
  | withdrawFees caller =>
      change Accounted s ((e.withdrawFees caller).perform s).2 []
        (Reply.paid ((e.withdrawFees caller).perform s).1).payments
      rcases hrun : (e.withdrawFees caller).perform s with ⟨err | paid, t⟩
      · obtain rfl := (local_payFees e.bank e.vault caller).clean_atomically hrun
        exact .refl t
      · obtain ⟨mid, hmid, rfl⟩ := Action.perform_atomically_ok.1 hrun
        have hopen : Coherent s.openBranch.get config counted := h
        have hbranch : Accounted s s.openBranch [] [] :=
          .of_same fun k _ => Store.get_openBranch s k
        have hpaid : Accounted s mid [] paid := hbranch.trans (hopen.accounted_payFees hout hmid)
        have hall := hpaid.trans (.of_same fun k _ => Store.get_commit mid k)
        rw [List.append_nil paid] at hall
        exact hall

/-! ## Runs -/

/-- A run accounts for everything that it answers. -/
theorem accounted_leaveAll (h : Coherent s.get config counted) {calls : List Call}
    (hout : ∀ c ∈ calls, c.engine.StaysOutside) :
    Accounted s (Call.leaveAll calls s) (Call.tradesBy calls s) (Call.paymentsBy calls s) := by
  induction calls generalizing s config counted with
  | nil => exact .refl s
  | cons c calls ih =>
      obtain ⟨config', counted', hfirst, -⟩ := h.operate (hout c List.mem_cons_self) c.operation
      have hrest := ih hfirst fun c' hc' => hout c' (List.mem_cons_of_mem c hc')
      rw [Call.tradesBy_cons, Call.paymentsBy_cons]
      exact (h.accounted_leave (hout c List.mem_cons_self)).trans hrest

end Coherent

/-! ## Calls without effect -/

/-- Whatever the pools and the bank have written: what executes, changes and pays nothing leaves
the store itself, but for a count of points started anew. -/
theorem Call.leave_of_futile {c : Call} {s : Store} (h : (c.reply s).IsFutile) :
    c.leave s = s ∨ ∃ block trade, c.operation = .postTrade block trade
      ∧ c.leave s = Budget.renewed block.height s := by
  obtain ⟨e, op⟩ := c
  cases op with
  | postTrade block trade =>
      have hresidue := (Engine.postTrade_course e block trade s).residue h
      by_cases hrenews : Engine.Renews block s
      · exact .inr ⟨block, trade, rfl, hresidue.1 hrenews⟩
      · exact .inl (hresidue.2 hrenews)
  | govern caller change =>
      obtain ⟨err, herr⟩ := h
      exact .inl (Governance.clean_change change (Prod.ext herr rfl))
  | withdrawFees caller =>
      obtain ⟨err, herr⟩ := h
      exact .inl ((Coherent.local_payFees e.bank e.vault caller).clean_atomically
        (Prod.ext herr rfl))

/-! ## After genesis -/

namespace Call

/-- **The accounts balance.**  After a valid genesis, whatever is asked of engines whose pools and
banks stay outside: in each denomination the engine finds as profits those of genesis and of
every executed cycle, and what it finds owed to the developer, with all that was paid out, is
what genesis owed and the developer's share of every executed cycle.  The number of trades is
that of genesis and of the executed cycles, as long as a word holds it.  The two parts of every
executed cycle add up to its profit, and a call that achieves nothing leaves the store itself,
but for a count of points started anew. -/
theorem accounts_balance {g : Genesis} {s₀ : Store}
    (hgenesis : g.store.perform Store.empty = (.ok (), s₀)) {calls : List Call}
    (hout : ∀ c ∈ calls, c.engine.StaysOutside) :
    (∀ d, ∃ earned owed, Ledger.amountOrZero (Ledger.profit d) (leaveAll calls s₀) = .ok earned
      ∧ Ledger.amountOrZero (Ledger.fees d) (leaveAll calls s₀) = .ok owed
      ∧ earned.toNat = Coin.totalIn d g.profits
        + Coin.totalIn d ((tradesBy calls s₀).map fun done => done.profit)
      ∧ owed.toNat + Coin.totalIn d (paymentsBy calls s₀) = Coin.totalIn d g.fees
        + Coin.totalIn d ((tradesBy calls s₀).map fun done => done.split.developer))
    ∧ (g.trades.toNat + (tradesBy calls s₀).length < UInt64.size →
      ∃ count, Ledger.trades (leaveAll calls s₀) = .ok count
        ∧ count.toNat = g.trades.toNat + (tradesBy calls s₀).length)
    ∧ (∀ done ∈ tradesBy calls s₀, done.split.developer.denom = done.profit.denom
      ∧ done.split.treasury.denom = done.profit.denom
      ∧ done.split.developer.amount.toNat + done.split.treasury.amount.toNat
        = done.profit.amount.toNat)
    ∧ ∀ before c after, calls = before ++ c :: after →
      (c.reply (leaveAll before s₀)).IsFutile →
        c.leave (leaveAll before s₀) = leaveAll before s₀
        ∨ ∃ block trade, c.operation = .postTrade block trade
          ∧ c.leave (leaveAll before s₀) = Budget.renewed block.height (leaveAll before s₀) := by
  have hg := Genesis.valid_of_perform_store hgenesis
  obtain ⟨s₁, bases, hstore, hholds, hsound, -⟩ :=
    Genesis.perform_store hg Store.empty fun _ _ => rfl
  rw [hgenesis] at hstore
  cases hstore
  have hvalid : ({ g with bases } : Genesis).Valid := { hg with bases := hsound }
  have hstart := hholds.coherent hvalid
  obtain ⟨config, counted, hend, -⟩ := hstart.leaveAll hout
  have haccounts := hstart.accounted_leaveAll hout
  refine ⟨fun d => ?_, fun hword => ?_, fun done hdone => ?_, fun before c after _ hfutile =>
    leave_of_futile hfutile⟩
  · refine ⟨_, _, Ledger.amountOrZero_load d _ hend.books.profits (Key.kind_profits d),
      Ledger.amountOrZero_load d _ hend.books.fees (Key.kind_developerFees d), ?_, ?_⟩
    · exact (haccounts.earned d).trans
        (congrArg (· + _) (hholds.earned_eq_total hvalid d))
    · exact (haccounts.owed d).trans (congrArg (· + _) (hholds.owed_eq_total hvalid d))
  · have hcount : Ledger.trades s₀ = .ok g.trades :=
      Ledger.trades_of_get (hholds.trades.get List.mem_cons_self Key.kind_tradeCount)
    refine ⟨_, haccounts.count g.trades hcount, ?_⟩
    rw [UInt64.toNat_add, UInt64.toNat_ofNat', Nat.add_mod_mod, Nat.mod_eq_of_lt hword]
  · have hsplits := haccounts.splits done hdone
    exact ⟨hsplits.developer, hsplits.treasury, hsplits.adds⟩

open Simulation in
/-- Two round trips in one block, a change of the ceiling for blocks between them: two trades are
counted, and the books show their profits. -/
theorem accounts_balance_roundTrips :
    ∃ s₀ calls count, (routeGenesis (tight 10) roundTrip).store.perform Store.empty = (.ok (), s₀)
      ∧ calls = [attempt ⟨10, .epoch⟩, recap 20, attempt ⟨10, .epoch⟩]
      ∧ (tradesBy calls s₀).length = 2
      ∧ Ledger.trades (leaveAll calls s₀) = .ok count ∧ count.toNat = 2
      ∧ ∀ d, ∃ earned, Ledger.amountOrZero (Ledger.profit d) (leaveAll calls s₀) = .ok earned
        ∧ earned.toNat = Coin.totalIn d ((tradesBy calls s₀).map fun done => done.profit) := by
  obtain ⟨s₀, hs₀, h₀⟩ := exists_turning validate_roundTripGenesis
  let b : Block := ⟨10, .epoch⟩
  obtain ⟨hp₁, c₁, h₁, hheight₁, hc₁⟩ := h₀.leave_attempt b (by decide) (by decide)
  have hb₁ : b.height ≤ c₁.height := hheight₁ ▸ UInt64.le_refl 10
  rw [show (PointCounter.inBlock .zero b).consumed.toNat = 0 from rfl] at hc₁
  obtain ⟨hp₂, h₂⟩ := h₁.leave_recap (show (tight 20).validate = .ok () by decide +kernel)
  have hc₂ : (c₁.clampedTo 20).consumed.toNat = 5 := by
    rw [PointCounter.toNat_clampedTo, hc₁]
    rfl
  have hb₂ : b.height ≤ (c₁.clampedTo 20).height :=
    (PointCounter.height_clampedTo c₁ 20).symm ▸ hb₁
  obtain ⟨hp₃, -⟩ := h₂.leave_attempt b
    (by rw [PointCounter.inBlock_of_le hb₂, hc₂]; decide) (by decide)
  have hout : ∀ c ∈ [attempt b, recap 20, attempt b], c.engine.StaysOutside := by
    intro c hc
    simp only [List.mem_cons, List.not_mem_nil, or_false] at hc
    rcases hc with rfl | rfl | rfl <;> exact generous_staysOutside
  have hlength : (tradesBy [attempt b, recap 20, attempt b] s₀).length = 2 := by
    have hfirst := Reply.length_trades_of_points (by rw [hp₁]; decide)
    have hlast := Reply.length_trades_of_points (by rw [hp₃]; decide)
    rw [tradesBy_cons, List.length_append, hfirst, tradesBy_cons, List.length_append,
      tradesBy_cons, List.length_append, hlast]
    rfl
  obtain ⟨hbooks, hcount, -⟩ := accounts_balance hs₀ hout
  obtain ⟨count, htrades, hcount⟩ := hcount (by rw [hlength]; decide)
  rw [hlength] at hcount
  refine ⟨s₀, _, count, hs₀, rfl, hlength, htrades, hcount, fun d => ?_⟩
  obtain ⟨earned, owed, hearned, -, htotal, -⟩ := hbooks d
  exact ⟨earned, hearned, htotal.trans (Nat.zero_add _)⟩

end Call

end Backrun
