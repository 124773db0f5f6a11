import Backrun.Proofs.Engine.Progress
import Backrun.Proofs.Simulation.Cycles

/-!
# Cycles that return what was quoted

The swaps of a cycle start from the view in which its points are debited and its input is
borrowed (`Candidate.StartsFrom`).  Where from there every swap returns at least what was quoted
for it, and the last one more than went in, nothing in the engine or in the simulated bank stands
in the way any more: the vault has the input to repay, and the cycle goes through all of its
stages (`Decodes.executeFrom_of_returns`).
-/

namespace Backrun

open Simulation

namespace Amount

/-- Larger amounts end in a larger one. -/
theorem getLastD_le_getLastD {quoted outputs : List Amount} {x y : Amount}
    (h : List.Forall₂ (· ≤ ·) quoted outputs) (hle : x ≤ y) :
    quoted.getLastD x ≤ outputs.getLastD y := by
  induction h generalizing x y with
  | nil => exact hle
  | cons hfirst _ ih =>
      rw [List.getLastD_cons, List.getLastD_cons]
      exact ih hfirst

/-- A larger output leaves a larger profit. -/
theorem sub_le_sub_of_le {input quoted output : Amount} (hmore : quoted ≤ output)
    (hearns : input < quoted) : quoted - input ≤ output - input := by
  have hquoted := BitVec.toNat_sub_of_le (BitVec.le_of_lt hearns)
  have houtput := BitVec.toNat_sub_of_le (BitVec.le_of_lt (Std.lt_of_lt_of_le hearns hmore))
  rw [Amount.le_iff] at hmore ⊢
  omega

end Amount

namespace Candidate

variable {m : Market} {a : Account} {input : Amount} {hops : List Hop}
  {quoted outputs : List Amount} {v w : View} {s : Store} {c : Candidate} {base : Denom}
  {P : Hop → Amount → Amount → View → Prop}

section Swap

variable {hop : Hop} {q output : Amount} {rest : List (Hop × Amount)} {writes : List Write}

/-- Behind a swap that returns at least what was quoted the others follow. -/
theorem swapAll_of_returned (returned : m.swap a hop input s.get = (.ok output, writes))
    (hq : q ≤ output) : (swapAll m a input ((hop, q) :: rest)).perform s
      = (swapAll m a output rest).perform (s.writeAll writes) := by
  rw [swapAll, Action.perform_bind_of_ok (Action.perform_call_of_ok returned _)]
  dsimp only
  rw [if_neg (BitVec.not_lt.2 hq)]

end Swap

/-- Swaps that return at least what was quoted for them go through. -/
theorem swapAll_of_returns (h : Returns m a input hops outputs v w) (hv : s.get = v)
    (hquoted : List.Forall₂ (· ≤ ·) quoted outputs) :
    ∃ t, (swapAll m a input (hops.zip quoted)).perform s = (.ok (outputs.getLastD input), t)
      ∧ t.get = w := by
  induction h generalizing s quoted with
  | here input v => exact ⟨s, rfl, hv⟩
  | @swap input output hop rest others v w writes returned onwards ih =>
      obtain ⟨q, quotes, hq, hquotes, rfl⟩ := List.forall₂_cons_right_iff.1 hquoted
      rw [← hv] at returned
      have hview : (s.writeAll writes).get = v.afterAll writes := by rw [Store.get_writeAll, hv]
      obtain ⟨t, hrest, hend⟩ := ih hview hquotes
      refine ⟨t, ?_, hend⟩
      rw [List.zip_cons_cons, swapAll_of_returned returned hq, hrest, List.getLastD_cons]

/-- A view from which the swaps of a cycle start: its points are debited and its input is
borrowed. -/
def StartsFrom (c : Candidate) (bank : Bank) (vault : Account) (base : Denom) (s : Store)
    (v : View) : Prop :=
  ∃ debited writes, (Budget.tryConsume c.cost).perform s = (.ok (), debited)
    ∧ bank.mint vault ⟨base, c.quote.input⟩ debited.get = (.ok (), writes)
    ∧ v = View.afterAll debited.get writes

/-- A cycle that fits the budget gets to its swaps with the pools untouched and the input in the
vault. -/
theorem exists_startsFrom {vault : Account} {budget : BudgetState}
    (hbudget : Budget.state s = .ok budget) (htx : c.cost ≤ budget.pointsPerTx)
    (hblock : c.cost ≤ budget.remaining) (hbase : c.route.base? = some base)
    (hwithin : c.Within P m Simulation.bank vault s) :
    ∃ v, c.StartsFrom Simulation.bank vault base s v ∧ SamePools s.get v
      ∧ Moved vault [] [⟨base, c.quote.input⟩] s.get v
      ∧ EachSwap m vault P c.quote.input c.route.hops v := by
  have hdebit := (Budget.tryConsume_ok (u := ())).2 ⟨budget, hbudget, htx, hblock, rfl⟩
  have hdebited := Budget.sameOutside_tryConsume hdebit
  obtain ⟨hroom, hswaps⟩ := hwithin base _ _ hbase hdebit rfl
  exact ⟨_, ⟨_, _, hdebit, rfl, rfl⟩,
    hdebited.samePools.trans (samePools_credit vault ⟨base, c.quote.input⟩ _),
    (hdebited.moved vault).trans (moved_credit hroom), hswaps⟩

end Candidate

/-- A cycle whose swaps return at least what was quoted, and in the end more than went in, goes
through all of its stages. -/
theorem Decodes.executeFrom_of_returns {vault : Account} {c : Candidate} {base : Denom}
    {outputs : List Amount} {s : Store} {v w : View} (h : Decodes s.get) (pools : Pools)
    (hgenesis : s.get Key.genesisTime ≠ none) (block : Block)
    (hleads : Route.Leads base c.route.hops base)
    (hstart : c.StartsFrom Simulation.bank vault base s v)
    (hborrowed : Moved vault [] [⟨base, c.quote.input⟩] s.get v)
    (hroom : EachSwap pools.market vault (RoomFor vault) c.quote.input c.route.hops v)
    (hreturns : Returns pools.market vault c.quote.input c.route.hops outputs v w)
    (hquoted : List.Forall₂ (· ≤ ·) c.quote.outputs outputs)
    (hless : c.quote.input < outputs.getLastD c.quote.input)
    (hfits : Ledger.Bookable block.time
      ⟨base, outputs.getLastD c.quote.input - c.quote.input⟩ s) :
    ∃ split t, (c.executeFrom base pools.market Simulation.bank vault block).perform s
      = (.ok ⟨c.route, c.quote.input, outputs.getLastD c.quote.input,
        ⟨base, outputs.getLastD c.quote.input - c.quote.input⟩, split, c.cost⟩, t) := by
  obtain ⟨debited, lent, hdebit, hlent, rfl⟩ := hstart
  obtain ⟨budget, hbudget, htx, hblock, -⟩ := Budget.tryConsume_ok.1 hdebit
  have hplain := Engine.Simulated.plain pools vault vault
  refine h.executeFrom_of_calls (e := ⟨pools.market, Simulation.bank, vault, vault⟩) hgenesis
    block hplain.staysOutside (fun debited' hdebit' => ?_) hbudget htx hblock hless hfits
  obtain rfl : debited' = debited := by
    rw [hdebit'] at hdebit
    exact (Prod.mk.inj hdebit).2
  obtain ⟨swapped, hswap, hend⟩ := Candidate.swapAll_of_returns hreturns
    (Store.get_writeAll debited' lent) hquoted
  -- The cycle has come back to its base, with more than there was before.
  have hrepaid : c.quote.input.toNat ≤ (balance vault base swapped.get).toNat := by
    have hown := (hborrowed.trans (hreturns.moved (fun hop x => hplain.swap vault hop x) hleads
      hroom)).own base
    have hlt : c.quote.input.toNat < (outputs.getLastD c.quote.input).toNat := hless
    simp only [List.nil_append, List.singleton_append, Coin.totalIn_cons, Coin.totalIn_nil,
      Coin.amountIn, if_true] at hown
    rw [hend]
    omega
  exact ⟨_, swapped, _, Action.perform_call_of_ok hlent _, hswap,
    Action.perform_call_of_ok (debit_ok.2 ⟨hrepaid, rfl⟩) _⟩

/-- So a promising one is executed. -/
theorem Decodes.execute_of_returns {vault : Account} {c : Candidate} {base : Denom}
    {outputs : List Amount} {budget : BudgetState} {s : Store} {v w : View} (h : Decodes s.get)
    (pools : Pools) (hgenesis : s.get Key.genesisTime ≠ none) (block : Block)
    (hpromising : c.Promising pools.market budget s) (hbase : c.route.base? = some base)
    (hleads : Route.Leads base c.route.hops base)
    (hstart : c.StartsFrom Simulation.bank vault base s.openBranch v)
    (hborrowed : Moved vault [] [⟨base, c.quote.input⟩] s.openBranch.get v)
    (hroom : EachSwap pools.market vault (RoomFor vault) c.quote.input c.route.hops v)
    (hreturns : Returns pools.market vault c.quote.input c.route.hops outputs v w)
    (hquoted : List.Forall₂ (· ≤ ·) c.quote.outputs outputs)
    (hfits : Ledger.Bookable block.time
      ⟨base, outputs.getLastD c.quote.input - c.quote.input⟩ s) :
    ∃ split t, (c.execute pools.market Simulation.bank vault block).perform s
      = (.ok ⟨c.route, c.quote.input, outputs.getLastD c.quote.input,
        ⟨base, outputs.getLastD c.quote.input - c.quote.input⟩, split, c.cost⟩, t) := by
  have hopen : Decodes s.openBranch.get := h
  have hless := Std.lt_of_lt_of_le hpromising.earns
    (Amount.getLastD_le_getLastD hquoted (BitVec.le_refl c.quote.input))
  obtain ⟨split, t, hrun⟩ := hopen.executeFrom_of_returns pools hgenesis block hleads hstart
    hborrowed hroom hreturns hquoted hless (hfits.congr rfl rfl rfl rfl)
  exact ⟨split, t.commit, Candidate.execute_ok.2
    ⟨base, t, hbase, Route.length_of_quoteHops hpromising.quotes, hrun, rfl⟩⟩

end Backrun
