import Backrun.Proofs.Engine.Accounting
import Backrun.Proofs.Simulation.BonusCycles

/-!
# What is owed is there

No funds move when a profit is booked: what is owed to the developer stays in the vault until it
is withdrawn.  With simulated engines, whose pools and bank may fail as they like, the vault
always holds it.

* `Solvent` — the invariant, over two separate stores of value: the ledger of fees and the
  balances of the bank.
* `Coherent.solvent_execute` — a cycle adds its profit to the balance, and to the ledger only
  the developer's share of it.
* `Coherent.solvent_leave`, `Coherent.solvent_leaveAll` — one call, and any number of calls.
* `Ledger.payFees_funded` — where the vault is solvent, every transfer of a withdrawal finds its
  funds.
-/

namespace Backrun

open Simulation

/-- The vault holds what is owed to the developer. -/
def Solvent (vault : Account) (v : View) : Prop :=
  ∀ d, (Ledger.owed v d).toNat ≤ (balance vault d v).toNat

/-- Where neither the ledger nor the balances have changed, the vault stays solvent. -/
theorem Solvent.congr {vault : Account} {v w : View} (h : Solvent vault v)
    (howed : ∀ d, w (Key.developerFees d) = v (Key.developerFees d))
    (hbalance : ∀ d, w (balanceKey vault d) = v (balanceKey vault d)) : Solvent vault w := by
  intro d
  rw [Ledger.owed, Ledger.amountAt_congr (howed d), balance_congr (hbalance d)]
  exact h d

namespace Call

/-- Whether the cycle that a call executes, if any, finds room in the balance of the vault. -/
def FindsRoom (c : Call) (s : Store) : Prop :=
  ∀ block trade config counted best done t, c.operation = .postTrade block trade →
    storedConfig s = .ok config → Budget.counter s = .ok counted →
    Search.run config c.engine.market trade (Engine.countedFor block counted s)
      = .ok (.found best) →
    (best.execute c.engine.market c.engine.bank c.engine.vault block).perform
      (Engine.countedFor block counted s) = (.ok done, t) →
    best.Within (RoomFor c.engine.vault) c.engine.market c.engine.bank c.engine.vault
      (Engine.countedFor block counted s).openBranch

/-- Whether every cycle that calls in order execute finds room. -/
def AllFindRoom : List Call → Store → Prop
  | [], _ => True
  | c :: calls, s => c.FindsRoom s ∧ AllFindRoom calls (c.leave s)

end Call

/-! ## One call -/

namespace Coherent

variable {s t : Store} {config : EngineConfig} {counted : PointCounter} {e : Engine} {pools : Pools}

/-- A cycle adds its profit to the balance, and to the ledger only the developer's share of it. -/
theorem solvent_execute (h : Coherent s.get config counted) (hsolvent : Solvent e.vault s.get)
    (he : e.Simulated pools) {best : Candidate} {block : Block} {done : Trade} {mostHops : UInt64}
    (hcycle : best.route.IsCycle mostHops)
    (hwithin : best.Within (RoomFor e.vault) e.market e.bank e.vault s.openBranch)
    (hdone : (best.execute e.market e.bank e.vault block).perform s = (.ok done, t)) :
    Solvent e.vault t.get := by
  obtain ⟨_, -, hsettled⟩ := h.execute he.staysOutside hdone
  have hmoved := Candidate.execute_moved he hcycle hwithin hdone
  have hshare := (Candidate.execute_recorded he.staysOutside hdone).posted.splits.adds
  intro d
  have hbefore := hsolvent d
  have howed := hsettled.owed d
  have hown := hmoved.own d
  simp only [Coin.totalIn_cons, Coin.totalIn_nil, Coin.amountIn] at hown
  by_cases hd : d = done.profit.denom
  · rw [if_pos hd] at howed hown
    omega
  · rw [if_neg hd] at howed hown
    omega

theorem solvent_postTrade (h : Coherent s.get config counted) (hsolvent : Solvent e.vault s.get)
    (he : e.Simulated pools) (block : Block) (trade : Hop)
    (hroom : Call.FindsRoom ⟨e, .postTrade block trade⟩ s) :
    Solvent e.vault (e.postTrade block trade s).2.get := by
  have hcourse := Engine.postTrade_course e block trade s
  generalize (e.postTrade block trade s).1 = outcome at hcourse
  generalize (e.postTrade block trade s).2 = t at hcourse
  -- Starting the count anew is no matter of the ledger or the balances.
  have hbegun : Solvent e.vault (Engine.countedFor block counted s).get :=
    hsolvent.congr
      (fun d => Engine.get_countedFor (Key.kind_ne (Key.kind_developerFees d)) block counted s)
      fun d => Engine.get_countedFor (Key.kind_ne (kind_balanceKey e.vault d)) block counted s
  cases hcourse with
  | idle => exact hsolvent
  | searched _ _ _ hcounted =>
      obtain rfl := h.budget.counter_unique hcounted
      exact hbegun
  | executed hconfig _ hcounted hfound hdone =>
      have hwithin := hroom block trade _ _ _ _ _ rfl hconfig hcounted hfound hdone
      obtain rfl := h.budget.config_unique hconfig
      obtain rfl := h.budget.counter_unique hcounted
      have hcounted := h.countedFor block
      exact hcounted.solvent_execute hbegun he (hcounted.isCycle_of_found hfound) hwithin hdone

/-- A withdrawal leaves nothing owed. -/
theorem solvent_withdrawFees (hsolvent : Solvent e.vault s.get) (he : e.Simulated pools)
    (caller : Account) : Solvent e.vault ((e.withdrawFees caller).perform s).2.get := by
  rcases hrun : (e.withdrawFees caller).perform s with ⟨err | paid, t⟩
  · obtain rfl := (local_payFees e.bank e.vault caller).clean_atomically hrun
    exact hsolvent
  · obtain ⟨mid, hmid, rfl⟩ := Action.perform_atomically_ok.1 hrun
    obtain ⟨hnone, -⟩ := payFees_frame (fun c => he.staysOutside.bank.transfer _ _ c) hmid
    intro d
    have hcleared : mid.commit.get (Key.developerFees d) = none :=
      (Store.get_commit mid _).trans (hnone _ (Key.kind_developerFees d))
    rw [Ledger.owed, Ledger.amountAt_of_none hcleared]
    exact Nat.zero_le _

/-- Every operation keeps the vault solvent. -/
theorem solvent_leave (h : Coherent s.get config counted) {c : Call}
    (hsolvent : Solvent c.engine.vault s.get) (he : c.engine.Simulated pools)
    (hroom : c.FindsRoom s) : Solvent c.engine.vault (c.leave s).get := by
  obtain ⟨e, op⟩ := c
  cases op with
  | postTrade block trade => exact h.solvent_postTrade hsolvent he block trade hroom
  | govern caller change =>
      change Solvent e.vault ((change.action e.authority caller).perform s).2.get
      rcases hrun : (change.action e.authority caller).perform s with ⟨err | _, t⟩
      · obtain rfl := Governance.clean_change change hrun
        exact hsolvent
      · refine hsolvent.congr (fun d => ?_) fun d => ?_
        · have hbook : Key.IsBook (Key.developerFees d) := .inl (Key.kind_developerFees d)
          exact Governance.frame_of_change hrun (fun hb => hb.elim hbook.kind_ne hbook.kind_ne)
            fun hr => hr.elim hbook.kind_ne fun hr => hr.elim hbook.kind_ne hbook.kind_ne
        · exact Governance.frame_of_change hrun
            (fun hb => balanceKey_outside e.vault d hb.isEngine)
            fun hr => balanceKey_outside e.vault d hr.isEngine
  | withdrawFees caller => exact solvent_withdrawFees hsolvent he caller

/-! ## Runs -/

/-- Every run keeps the vault solvent. -/
theorem solvent_leaveAll (h : Coherent s.get config counted) {vault : Account}
    (hsolvent : Solvent vault s.get) {calls : List Call}
    (hengines : ∀ c ∈ calls, c.engine.vault = vault ∧ ∃ pools, c.engine.Simulated pools)
    (hroom : Call.AllFindRoom calls s) : Solvent vault (Call.leaveAll calls s).get := by
  induction calls generalizing s config counted with
  | nil => exact hsolvent
  | cons c calls ih =>
      obtain ⟨rfl, pools, he⟩ := hengines c List.mem_cons_self
      obtain ⟨config', counted', hnext, -⟩ := h.operate he.staysOutside c.operation
      exact ih hnext (h.solvent_leave hsolvent he hroom.1)
        (fun c' hc' => hengines c' (List.mem_cons_of_mem c hc')) hroom.2

end Coherent

/-! ## Withdrawals -/

namespace Simulation

variable {source target : Account} {c : Coin} {v : View} {writes : List Write}

/-- The bank transfers every coin for which there are funds. -/
theorem transfer_funded (target : Account)
    (hfunds : c.amount.toNat ≤ (balance source c.denom v).toNat) :
    (bank.transfer source target c v).1 = .ok () := by
  have htransfer : bank.transfer source target c v = (.ok (), _) :=
    Effect.bind_ok.2 ⟨(), _, _, debit_ok.2 ⟨hfunds, rfl⟩, credit_apply target c _, rfl⟩
  rw [htransfer]

/-- A transfer changes no balance of another denomination. -/
theorem balance_of_transfer {d : Denom} (hd : d ≠ c.denom) (a : Account)
    (h : bank.transfer source target c v = (.ok (), writes)) :
    balance a d (v.afterAll writes) = balance a d v := by
  obtain ⟨_, given, received, hgiven, hreceived, rfl⟩ := Effect.bind_ok.1 h
  obtain ⟨-, rfl⟩ := debit_ok.1 hgiven
  rw [credit_apply] at hreceived
  obtain ⟨-, rfl⟩ := Prod.mk.inj hreceived
  rw [View.afterAll_append, View.afterAll_cons, View.afterAll_nil, View.afterAll_cons,
    View.afterAll_nil, balance_after, if_neg fun heq => hd heq.2, balance_after,
    if_neg fun heq => hd heq.2]

end Simulation

namespace Ledger

variable {bank : Bank} {vault caller : Account} {coins : List Coin} {s t : Store}

/-- Transfers coins one by one. -/
def transferAll (bank : Bank) (vault caller : Account) (coins : List Coin) : Action Unit :=
  coins.forM fun c =>
    Action.call (bank.transfer vault caller c) fun fault => .executionFailure (.withdrawal fault)

/-- A bank refuses one of several coins although the vault has the funds for it, with those before
it transferred. -/
def RefusesFunds (bank : Bank) (vault caller : Account) (coins : List Coin) (s : Store)
    (fault : Fault) : Prop :=
  ∃ before c after u, coins = before ++ c :: after
    ∧ (transferAll bank vault caller before).perform s = (.ok (), u)
    ∧ c.amount.toNat ≤ (balance vault c.denom u.get).toNat
    ∧ (bank.transfer vault caller c u.get).1 = .error fault

theorem not_refusesFunds (vault caller : Account) (coins : List Coin) (s : Store) (fault : Fault) :
    ¬ RefusesFunds Simulation.bank vault caller coins s fault := by
  rintro ⟨_, c, _, u, -, -, hfunds, hrefused⟩
  rw [transfer_funded caller hfunds] at hrefused
  exact absurd hrefused nofun

/-- With funds for every coin, and no denomination twice, nothing but a refusal of funds stops
the transfers. -/
theorem transferAll_funded
    (hbank : ∀ c, (bank.transfer vault caller c).Falters (Simulation.bank.transfer vault caller c))
    (hnodup : (coins.map Coin.denom).Nodup)
    (hfunds : ∀ c ∈ coins, c.amount.toNat ≤ (balance vault c.denom s.get).toNat) :
    (∃ t, (transferAll bank vault caller coins).perform s = (.ok (), t))
      ∨ ∃ fault t, (transferAll bank vault caller coins).perform s
          = (.error (.executionFailure (.withdrawal fault)), t)
        ∧ RefusesFunds bank vault caller coins s fault := by
  induction coins generalizing s with
  | nil => exact .inl ⟨s, rfl⟩
  | cons c coins ih =>
      rw [List.map_cons, List.nodup_cons] at hnodup
      rcases hcall : bank.transfer vault caller c s.get with ⟨fault | _, writes⟩
      · have hfailed : (Action.call (bank.transfer vault caller c) fun fault =>
            .executionFailure (.withdrawal fault)).perform s
              = (.error (.executionFailure (.withdrawal fault)), s.writeAll writes) := by
          rw [Action.perform_call, hcall]
          rfl
        exact .inr ⟨fault, _, Action.perform_bind_of_error hfailed _, [], c, coins, s, rfl, rfl,
          hfunds c List.mem_cons_self, congrArg Prod.fst hcall⟩
      · have hfirst : (Action.call (bank.transfer vault caller c) fun fault =>
            .executionFailure (.withdrawal fault)).perform s = (.ok (), s.writeAll writes) :=
          Action.perform_call_ok.2 ⟨congrArg Prod.fst hcall, by rw [hcall]⟩
        -- The first transfer leaves the funds for the other denominations.
        have hothers : ∀ c' ∈ coins,
            c'.amount.toNat ≤ (balance vault c'.denom (s.writeAll writes).get).toNat := by
          intro c' hc'
          have hne : c'.denom ≠ c.denom := fun heq => hnodup.1 (heq ▸ List.mem_map_of_mem hc')
          rw [Store.get_writeAll, balance_of_transfer hne vault ((hbank c).ok hcall)]
          exact hfunds c' (List.mem_cons_of_mem c hc')
        rcases ih hnodup.2 hothers with
          ⟨t, ht⟩ | ⟨fault, t, ht, before, c', after, u, rfl, hu, hrest⟩
        · exact .inl ⟨t, (Action.perform_bind_of_ok hfirst _).trans ht⟩
        · exact .inr ⟨fault, t, (Action.perform_bind_of_ok hfirst _).trans ht, c :: before, c',
            after, u, rfl, (Action.perform_bind_of_ok hfirst _).trans hu, hrest⟩

/-- Where the vault is solvent, nothing but a refusal of funds stops a withdrawal by the
developer. -/
theorem payFees_funded {config : EngineConfig} {counted : PointCounter}
    (h : Coherent s.get config counted) (hsolvent : Solvent vault s.get)
    (hbank : ∀ c, (bank.transfer vault caller c).Falters (Simulation.bank.transfer vault caller c))
    (hdeveloper : config.developer = some caller) :
    ∃ due, (∃ t, (payFees bank vault caller).perform s = (.ok due, t))
      ∨ ∃ fault t, (payFees bank vault caller).perform s
          = (.error (.executionFailure (.withdrawal fault)), t)
        ∧ RefusesFunds bank vault caller due s fault := by
  obtain ⟨recorded, hrecorded, hnodup, howed⟩ := h.books.allFees
  have hmay : authorizeDeveloper config caller = .ok () := authorizeDeveloper_ok.2 hdeveloper
  have hnodup' : ((recorded.filter fun c => c.amount != 0).map Coin.denom).Nodup :=
    hnodup.sublist (List.filter_sublist.map Coin.denom)
  have hfunds : ∀ c ∈ recorded.filter fun c => c.amount != 0,
      c.amount.toNat ≤ (balance vault c.denom s.get).toNat := by
    intro c hc
    rw [← Coin.totalIn_of_mem hnodup (List.mem_of_mem_filter hc), ← howed]
    exact hsolvent c.denom
  refine ⟨recorded.filter fun c => c.amount != 0, ?_⟩
  rcases transferAll_funded hbank hnodup' hfunds with ⟨t, ht⟩ | ⟨fault, t, ht, hrefuses⟩
  · exact .inl ⟨_, payFees_ok.2 ⟨config, recorded, t, h.budget.storedConfig_eq, hmay, hrecorded,
      rfl, ht, rfl⟩⟩
  · refine .inr ⟨fault, t, ?_, hrefuses⟩
    rw [payFees, Action.perform_query_bind_of_ok h.budget.storedConfig_eq, hmay,
      Action.perform_bind_of_ok (Action.perform_liftVerdict (.ok ()) s),
      Action.perform_query_bind_of_ok hrecorded]
    exact Action.perform_bind_of_error ht _

/-- The same of a withdrawal as a whole, which leaves the store itself where it fails. -/
theorem withdrawFees_funded {config : EngineConfig} {counted : PointCounter}
    (h : Coherent s.get config counted) (hsolvent : Solvent vault s.get)
    (hbank : ∀ c, (bank.transfer vault caller c).Falters (Simulation.bank.transfer vault caller c))
    (hdeveloper : config.developer = some caller) :
    ∃ due, (∃ t, (withdrawFees bank vault caller).perform s = (.ok due, t))
      ∨ ∃ fault, (withdrawFees bank vault caller).perform s
          = (.error (.executionFailure (.withdrawal fault)), s)
        ∧ RefusesFunds bank vault caller due s.openBranch fault := by
  have hopen : Coherent s.openBranch.get config counted := h
  have hsolvent' : Solvent vault s.openBranch.get := hsolvent
  obtain ⟨due, ⟨t, ht⟩ | ⟨fault, t, ht, hrefuses⟩⟩ :=
    payFees_funded hopen hsolvent' hbank hdeveloper
  · exact ⟨due, .inl ⟨t.commit, Action.perform_atomically_ok.2 ⟨t, ht, rfl⟩⟩⟩
  · have hfailed : (withdrawFees bank vault caller).perform s
        = (.error (.executionFailure (.withdrawal fault)), t.discard) := by
      rw [withdrawFees, Action.perform_atomically, ht]
    have hsame : t.discard = s :=
      (Coherent.local_payFees bank vault caller).clean_atomically hfailed
    rw [hsame] at hfailed
    exact ⟨due, .inr ⟨fault, hfailed, hrefuses⟩⟩

end Ledger

/-! ## After genesis -/

namespace Call

/-- **What is owed is there.**  After a valid genesis with the developer's fees in the vault,
whatever is asked of simulated engines, and whatever their pools and their bank refuse: as long
as every cycle finds room in the balances of the vault, the vault holds what the engine finds
owed to the developer, in each denomination.  So a withdrawal by the configured developer never
fails for want of funds: it succeeds, or the bank has refused a coin that the vault had; and the
simulated bank itself refuses none. -/
theorem stays_solvent {g : Genesis} {vault : Account} {s s₀ : Store}
    (hempty : ∀ k, Key.IsEngine k → s.get k = none)
    (hgenesis : g.store.perform s = (.ok (), s₀))
    (hheld : ∀ c ∈ g.fees, c.amount.toNat ≤ (balance vault c.denom s₀.get).toNat)
    {calls : List Call}
    (hengines : ∀ c ∈ calls, c.engine.vault = vault ∧ ∃ pools, c.engine.Simulated pools)
    (hroom : AllFindRoom calls s₀) :
    (∀ d, ∃ owed, Ledger.amountOrZero (Ledger.fees d) (leaveAll calls s₀) = .ok owed
      ∧ owed.toNat ≤ (balance vault d (leaveAll calls s₀).get).toNat)
    ∧ (∀ (e : Engine) pools config developer, e.vault = vault → e.Simulated pools →
      storedConfig (leaveAll calls s₀) = .ok config → config.developer = some developer →
      ∃ due, (∃ t, (e.withdrawFees developer).perform (leaveAll calls s₀) = (.ok due, t))
        ∨ ∃ fault, (e.withdrawFees developer).perform (leaveAll calls s₀)
            = (.error (.executionFailure (.withdrawal fault)), leaveAll calls s₀)
          ∧ Ledger.RefusesFunds e.bank vault developer due (leaveAll calls s₀).openBranch fault)
    ∧ ∀ (e : Engine) config developer, e.vault = vault → e.bank = Simulation.bank →
      storedConfig (leaveAll calls s₀) = .ok config → config.developer = some developer →
      ∃ due t, (e.withdrawFees developer).perform (leaveAll calls s₀) = (.ok due, t) := by
  have hg := Genesis.valid_of_perform_store hgenesis
  obtain ⟨s₁, bases, hstore, hholds, hsound, -⟩ := Genesis.perform_store hg s hempty
  rw [hgenesis] at hstore
  cases hstore
  have hvalid : ({ g with bases } : Genesis).Valid := { hg with bases := hsound }
  have hstart := hholds.coherent hvalid
  have hsolvent₀ : Solvent vault s₀.get := by
    intro d
    rw [hholds.owed_eq_total hvalid d]
    by_cases hd : ∃ c ∈ g.fees, c.denom = d
    · obtain ⟨c, hc, rfl⟩ := hd
      exact (Coin.totalIn_of_mem hg.fees hc).trans_le (hheld c hc)
    · exact (Coin.totalIn_eq_zero fun c hc heq => hd ⟨c, hc, heq⟩).trans_le (Nat.zero_le _)
  have hsolvent := hstart.solvent_leaveAll hsolvent₀ hengines hroom
  obtain ⟨config₁, counted₁, hend, -⟩ := hstart.leaveAll fun c hc =>
    (hengines c hc).2.elim fun _ he => he.staysOutside
  have hwithdraw : ∀ (e : Engine) config developer, e.vault = vault →
      (∀ c, (e.bank.transfer vault developer c).Falters
        (Simulation.bank.transfer vault developer c)) →
      storedConfig (leaveAll calls s₀) = .ok config → config.developer = some developer →
      ∃ due, (∃ t, (e.withdrawFees developer).perform (leaveAll calls s₀) = (.ok due, t))
        ∨ ∃ fault, (e.withdrawFees developer).perform (leaveAll calls s₀)
            = (.error (.executionFailure (.withdrawal fault)), leaveAll calls s₀)
          ∧ Ledger.RefusesFunds e.bank vault developer due (leaveAll calls s₀).openBranch
            fault := by
    rintro e config developer rfl hbank hconfig hdeveloper
    obtain rfl := hend.budget.config_unique hconfig
    exact Ledger.withdrawFees_funded hend hsolvent hbank hdeveloper
  refine ⟨fun d => ⟨_, Ledger.amountOrZero_load d _ hend.books.fees (Key.kind_developerFees d),
    hsolvent d⟩, fun e pools config developer hvault he =>
      hwithdraw e config developer hvault fun c => he.transfer vault developer c,
    fun e config developer hvault hbank hconfig hdeveloper => ?_⟩
  obtain ⟨due, hpaid | ⟨fault, -, hrefuses⟩⟩ := hwithdraw e config developer hvault
    (fun c => hbank ▸ .refl _) hconfig hdeveloper
  · exact ⟨due, hpaid⟩
  · rw [hbank] at hrefuses
    exact absurd hrefuses (Ledger.not_refusesFunds _ _ _ _ _)

/-- The ring with a bank that transfers no atoms. -/
def blockedRing : Engine :=
  { ring with bank := ({ Disturbance.none with transfer := [atom] }).bank Simulation.bank }

/-- A cycle around the ring, the naming of a developer, and a withdrawal while transfers are
blocked. -/
def ringCalls : List Call :=
  [⟨ring, .postTrade ⟨10, .epoch⟩ ⟨1, atom, osmo⟩⟩,
    ⟨ring, .govern ring.authority (.developer ring.authority)⟩,
    ⟨blockedRing, .withdrawFees ring.authority⟩]

/-- After them the vault holds what is owed, and where transfers are not blocked the developer is
paid. -/
theorem stays_solvent_ring :
    ∃ s₀ due t, (routeGenesis (tight 10) roundTrip).store.perform Store.empty = (.ok (), s₀)
      ∧ (tradesBy ringCalls s₀).map Trade.profit = [⟨atom, 200⟩]
      ∧ (∀ d, ∃ owed, Ledger.amountOrZero (Ledger.fees d) (leaveAll ringCalls s₀) = .ok owed
        ∧ owed.toNat ≤ (balance ring.vault d (leaveAll ringCalls s₀).get).toNat)
      ∧ (ring.withdrawFees ring.authority).perform (leaveAll ringCalls s₀) = (.ok due, t) := by
  obtain ⟨s₀, hgenesis, hstart⟩ := exists_turning validate_roundTripGenesis
  let b : Block := ⟨10, .epoch⟩
  have hcounted := hstart.countedFor b
  -- The first call executes a cycle, which finds room.
  have hnothing : ∀ d, balance ring.vault d (Engine.countedFor b .zero s₀).openBranch.get = 0 :=
    fun d => (balance_congr (Engine.get_countedFor (Key.kind_ne (kind_balanceKey ring.vault d))
      b .zero s₀)).trans (balance_of_import hgenesis ring.vault d)
  have hwithin : ringCandidate.Within (RoomFor ring.vault) ring.market ring.bank ring.vault
      (Engine.countedFor b .zero s₀).openBranch :=
    ring_within (fun d => Nat.le_of_eq (congrArg BitVec.toNat (hnothing d))) (by decide)
  have hfound : Search.run (tight 10) ring.market ⟨1, atom, osmo⟩
      (Engine.countedFor b .zero s₀) = .ok (.found ringCandidate) :=
    hcounted.found (by decide) rfl (fun _ hfive => ring_pricedFrom hfive) (by decide)
  obtain ⟨done, s₁, hdone, hprofit⟩ := ring_executes hcounted.coherent (by decide) hwithin
    (Nat.lt_of_le_of_lt (Nat.add_le_add_right hcounted.earned 200) (by decide)) b
  have hpost : ring.postTrade b ⟨1, atom, osmo⟩ s₀ = (.executed done, s₁) :=
    Engine.postTrade_of_executed _ _ _ _ hstart.coherent.budget.storedConfig_eq rfl
      hstart.coherent.budget.counter_eq hfound hdone
  obtain ⟨counted₁, h₁, -⟩ := hcounted.coherent.execute ring_simulated.staysOutside hdone
  -- The second one names the developer, and the third one leaves the name, whatever it pays.
  have hmay : Governance.authorize ring.authority ring.authority s₁ = .ok () := by
    rw [Governance.authorize, Query.bind_of_ok h₁.budget.storedConfig_eq]
    rfl
  obtain ⟨s₂, hnamed⟩ : ∃ s₂, (Governance.Change.action ring.authority ring.authority
      (.developer ring.authority)).perform s₁ = (.ok (), s₂) :=
    ⟨_, Governance.authorize_bind_ok.2 ⟨hmay, Governance.changeConfig_ok.2 ⟨tight 10,
      h₁.budget.storedConfig_eq, by decide +kernel, rfl⟩⟩⟩
  have hblocked : blockedRing.Simulated (.bonus ringPools) := ring_simulated.disturbed _
  have h₃ := (h₁.change hnamed).withdrawFees hblocked.staysOutside ring.authority
  have hleave : leaveAll ringCalls s₀
      = ((blockedRing.withdrawFees ring.authority).perform s₂).2 := by
    have hfirst : Call.leave ⟨ring, .postTrade b ⟨1, atom, osmo⟩⟩ s₀ = s₁ :=
      congrArg Prod.snd hpost
    have hsecond : Call.leave ⟨ring, .govern ring.authority (.developer ring.authority)⟩ s₁ = s₂ :=
      congrArg Prod.snd hnamed
    rw [ringCalls, leaveAll_cons, hfirst, leaveAll_cons, hsecond]
    rfl
  have hconfig := h₃.budget.storedConfig_eq
  rw [← hleave] at hconfig
  have hroom : AllFindRoom ringCalls s₀ := by
    refine ⟨?_, fun _ _ _ _ _ _ _ hop => Operation.noConfusion hop,
      fun _ _ _ _ _ _ _ hop => Operation.noConfusion hop, trivial⟩
    intro block trade config counted best done t hop hconfig hcounter hbest _
    cases hop
    obtain rfl := hstart.coherent.budget.config_unique hconfig
    obtain rfl := hstart.coherent.budget.counter_unique hcounter
    cases hbest.symm.trans hfound
    exact hwithin
  have hheld : ∀ c ∈ (routeGenesis (tight 10) roundTrip).fees,
      c.amount.toNat ≤ (balance ring.vault c.denom s₀.get).toNat := List.forall_mem_nil _
  have hengines : ∀ c ∈ ringCalls,
      c.engine.vault = ring.vault ∧ ∃ pools, c.engine.Simulated pools := by
    intro c hc
    simp only [ringCalls, List.mem_cons, List.not_mem_nil, or_false] at hc
    rcases hc with rfl | rfl | rfl
    · exact ⟨rfl, _, ring_simulated⟩
    · exact ⟨rfl, _, ring_simulated⟩
    · exact ⟨rfl, _, hblocked⟩
  obtain ⟨howed, -, hpaid⟩ := stays_solvent (fun _ _ => rfl) hgenesis hheld hengines hroom
  obtain ⟨due, t, hdue⟩ := hpaid ring _ ring.authority rfl rfl hconfig rfl
  refine ⟨s₀, due, t, hgenesis, ?_, howed, hdue⟩
  have hreply : Call.reply ⟨ring, .postTrade b ⟨1, atom, osmo⟩⟩ s₀ = .afterTrade (.executed done) :=
    congrArg (fun p : PostTrade × Store => Reply.afterTrade p.1) hpost
  rw [ringCalls, tradesBy_cons, hreply]
  exact congrArg (fun profit => [profit]) hprofit

end Call

end Backrun
