import Backrun.Proofs.Simulation.QuotedCycles
import Backrun.Proofs.Simulation.RoundTrip

/-!
# Cycles through bonus pools

A bonus pool returns what it quotes to everybody who has the input.  Along a route the vault has
each input, since it is the output of the swap before; so nothing in the pools or the bank
stops a cycle that fits the budget and earns.

The ring is such a cycle: two pools with a bonus of a hundred each, around which an input of one
earns two hundred.
-/

namespace Backrun

namespace Simulation

variable {pools : List BonusPool} {a : Account} {hop : Hop} {input output : Amount} {v w : View}
  {n : Nat}

/-! ## Swaps -/

/-- What a bonus pool quotes does not depend on the view. -/
theorem quoteBonus_congr (pools : List BonusPool) (hop : Hop) (input : Amount) (v w : View) :
    quoteBonus pools hop input v = quoteBonus pools hop input w := by
  rw [quoteBonus, findBonus]
  cases pools.reverse.find? fun p => p.id == hop.poolId <;> rfl

/-- A bonus pool returns what it quotes to everybody who has the input. -/
theorem bonus_swap_succeeds (hquote : quoteBonus pools hop input v = .ok output)
    (hfunds : input.toNat ≤ (balance a hop.denomIn v).toNat) :
    ∃ writes, (bonusPools pools).swap a hop input v = (.ok output, writes) :=
  ⟨_, Effect.inspect_bind_ok.2 ⟨output, hquote, Effect.bind_ok.2 ⟨(), _, _,
    debit_ok.2 ⟨hfunds, rfl⟩, Effect.bind_ok.2 ⟨(), _, [], rfl, rfl, rfl⟩, rfl⟩⟩⟩

/-! ## Room for the outputs -/

/-- There is room for every output where there is room for all of them together. -/
theorem eachSwap_bonus {hops : List Hop} {outputs : List Amount} {start finish : Denom} {s : Store}
    (hleads : Route.Leads start hops finish)
    (hquotes : Route.quoteHops (bonusPools pools) input hops s = .ok outputs)
    (hatMost : AtMost a n v)
    (hfits : n + (outputs.map BitVec.toNat).sum < Amount.bound) :
    EachSwap (bonusPools pools) a (RoomFor a) input hops v := by
  induction hops generalizing start input outputs n v with
  | nil => trivial
  | cons hop rest ih =>
      obtain ⟨output, others, hquote, hothers, rfl⟩ := Route.quoteHops_cons_ok.1 hquotes
      rw [List.map_cons, List.sum_cons] at hfits
      intro output' writes hswap
      -- The pool returns what it has quoted.
      have hreturned := (bonus_swap_ok hswap).1
      rw [quoteBonus_congr pools hop input v s.get] at hreturned
      obtain rfl : output' = output := Except.ok.inj (hreturned.symm.trans hquote)
      cases hleads with
      | hop changes onwards =>
          have hroom : HasRoom a ⟨hop.denomOut, output'⟩ v := hatMost.hasRoom (by dsimp only; omega)
          have hmoved : Moved a [⟨hop.denomIn, input⟩] [⟨hop.denomOut, output'⟩] v _ :=
            (Pools.bonus pools).swap_moved hswap changes hroom
          exact ⟨hroom, ih onwards hothers (hatMost.moved hmoved) (by dsimp only; omega)⟩

/-- To an account that has the first input the pools return what they quote, all along. -/
theorem returns_bonus {hops : List Hop} {outputs : List Amount} {start finish : Denom} {s : Store}
    (hleads : Route.Leads start hops finish)
    (hquotes : Route.quoteHops (bonusPools pools) input hops s = .ok outputs)
    (hfunds : input.toNat ≤ (balance a start v).toNat)
    (hroom : EachSwap (bonusPools pools) a (RoomFor a) input hops v) :
    ∃ w, Returns (bonusPools pools) a input hops outputs v w := by
  induction hops generalizing start input outputs v with
  | nil =>
      rw [← Except.ok.inj hquotes]
      exact ⟨v, .here input v⟩
  | cons hop rest ih =>
      obtain ⟨output, others, hquote, hothers, rfl⟩ := Route.quoteHops_cons_ok.1 hquotes
      cases hleads with
      | hop changes onwards =>
          have hquote' : quoteBonus pools hop input v = .ok output :=
            (quoteBonus_congr pools hop input v s.get).trans hquote
          obtain ⟨writes, hswap⟩ := bonus_swap_succeeds hquote' hfunds
          obtain ⟨hfirst, hlater⟩ := hroom output writes hswap
          have hmoved : Moved a [⟨hop.denomIn, input⟩] [⟨hop.denomOut, output⟩] v _ :=
            (Pools.bonus pools).swap_moved hswap changes hfirst
          -- The output of the first swap is there for the next one.
          obtain ⟨w, hreturns⟩ := ih onwards hothers (hmoved.received_of_ne changes) hlater
          exact ⟨w, .swap hswap hreturns⟩

end Simulation

open Simulation

/-! ## Cycles -/

namespace Candidate

variable {pools : List BonusPool} {a : Account} {input : Amount} {c : Candidate} {base : Denom}
  {quoted s : Store} {n : Nat}

/-- Where there is room for the input and all outputs together, the cycle stays within words. -/
theorem within_bonus {vault : Account} (hleads : Route.Leads base c.route.hops base)
    (hbase : c.route.base? = some base)
    (hquotes : Route.quoteHops (bonusPools pools) c.quote.input c.route.hops quoted
      = .ok c.quote.outputs) (hatMost : AtMost vault n s.get)
    (hfits : n + c.quote.input.toNat + (c.quote.outputs.map BitVec.toNat).sum < Amount.bound) :
    c.Within (RoomFor vault) (bonusPools pools) Simulation.bank vault s := by
  intro base' debited writes hbase' hdebit hmint
  rw [hbase] at hbase'
  cases hbase'
  have hdebited : AtMost vault n debited.get := fun d => by
    rw [balance_congr (Budget.sameOutside_tryConsume hdebit _ (balanceKey_outside vault d))]
    exact hatMost d
  have hroom : HasRoom vault ⟨base, c.quote.input⟩ debited.get :=
    hdebited.hasRoom (by dsimp only; omega)
  have hborrowed := moved_credit hroom
  have hwrites : credit vault ⟨base, c.quote.input⟩ debited.get = (.ok (), writes) := hmint
  rw [hwrites] at hborrowed
  exact ⟨hroom, eachSwap_bonus hleads hquotes (hdebited.moved hborrowed) hfits⟩

end Candidate

/-- A cycle through bonus pools that fits the budget and earns goes through all of its stages. -/
theorem Coherent.executeFrom_bonus {s quoted : Store} {config : EngineConfig}
    {counted : PointCounter} {pools : List BonusPool} {vault : Account} {c : Candidate}
    {base : Denom} {output : Amount} (h : Coherent s.get config counted) (block : Block)
    (hleads : Route.Leads base c.route.hops base) (hbase : c.route.base? = some base)
    (hquotes : Route.quoteHops (bonusPools pools) c.quote.input c.route.hops quoted
      = .ok c.quote.outputs)
    (houtput : c.quote.outputs.getLastD c.quote.input = output)
    (hwithin : c.Within (RoomFor vault) (bonusPools pools) Simulation.bank vault s)
    (htx : c.cost ≤ config.pointsPerTx)
    (hblock : c.cost ≤ Points.minus config.pointsPerBlock counted.consumed)
    (hless : c.quote.input < output)
    (hfits : (Ledger.earned s.get base).toNat + (output - c.quote.input).toNat < Amount.bound) :
    ∃ split t, (c.executeFrom base (bonusPools pools) Simulation.bank vault block).perform s
      = (.ok ⟨c.route, c.quote.input, output, ⟨base, output - c.quote.input⟩, split, c.cost⟩,
        t) := by
  obtain ⟨v, hstart, -, hborrowed, hroom⟩ :=
    Candidate.exists_startsFrom h.budget.state_eq htx hblock hbase hwithin
  obtain ⟨w, hreturns⟩ := returns_bonus hleads hquotes (hborrowed.le_of_received rfl) hroom
  subst houtput
  exact h.decodes.executeFrom_of_returns (.bonus pools) h.genesisTime_ne_none block hleads hstart
    hborrowed hroom hreturns (List.forall₂_same.2 fun x _ => BitVec.le_refl x) hless
    (h.books.bookable block.time hfits)

/-! ## The ring -/

namespace Simulation

/-- Two pools that each add a hundred. -/
def ringPools : List BonusPool := [⟨1, .balancer, 100⟩, ⟨2, .balancer, 100⟩]

/-- An engine at the ring. -/
def ring : Engine := { generous with market := bonusPools ringPools, bank := bank }

/-- The round trip as a search with a step of one prices it at the ring. -/
def ringCandidate : Candidate := { roundTripCandidate with quote := ⟨1, [101, 201], 200⟩ }

theorem ring_simulated : ring.Simulated (.bonus ringPools) :=
  .plain (.bonus ringPools) ring.vault ring.authority

theorem roundTrip_leads : Route.Leads atom roundTrip.hops atom :=
  .hop (h := ⟨1, atom, osmo⟩) (by decide) (.hop (h := ⟨2, osmo, atom⟩) (by decide) (.here atom))

theorem ring_quotes (s : Store) :
    Route.quoteHops (bonusPools ringPools) 1 roundTrip.hops s = .ok [101, 201] := rfl

variable {s : Store} {ceiling : UInt64} {counted : PointCounter} {n : Nat}

/-- An import into the empty store leaves no balance. -/
theorem balance_of_import {g : Genesis} {s₀ : Store}
    (h : g.store.perform Store.empty = (.ok (), s₀)) (a : Account) (d : Denom) :
    balance a d s₀.get = 0 := by
  rw [balance, record?, Genesis.frame_of_perform_store h (balanceKey_outside a d)]
  rfl

/-- The ring stays within words in a vault that is not all but full. -/
theorem ring_within (hatMost : AtMost ring.vault n s.get) (hfits : n + 303 < Amount.bound) :
    ringCandidate.Within (RoomFor ring.vault) ring.market ring.bank ring.vault s :=
  Candidate.within_bonus roundTrip_leads rfl (ring_quotes s) hatMost hfits

/-- A search prices the round trip at the ring. -/
theorem ring_pricedFrom {available : UInt64} (hfive : 5 ≤ available) :
    Search.PricedFrom (tight ceiling) ring.market available s ⟨atom, 1⟩ ringCandidate :=
  ⟨rfl, hfive, rfl⟩

/-- With five points left the cycle around the ring is executed. -/
theorem ring_executes (h : Coherent s.get (tight ceiling) counted)
    (hleft : counted.consumed.toNat + 5 ≤ ceiling.toNat)
    (hwithin : ringCandidate.Within (RoomFor ring.vault) ring.market ring.bank ring.vault
      s.openBranch)
    (hearned : (Ledger.earned s.get atom).toNat + 200 < Amount.bound) (block : Block) :
    ∃ done t, (ringCandidate.execute ring.market ring.bank ring.vault block).perform s
      = (.ok done, t) ∧ done.profit = ⟨atom, 200⟩ := by
  have hopen : Coherent s.openBranch.get (tight ceiling) counted := h
  have hremaining : (5 : UInt64) ≤ Points.minus ceiling counted.consumed := by
    rw [UInt64.le_iff_toNat_le, Points.toNat_minus]
    show 5 ≤ _
    omega
  obtain ⟨split, t, hrun⟩ := hopen.executeFrom_bonus (c := ringCandidate) block roundTrip_leads rfl
    (ring_quotes s) rfl hwithin (UInt64.le_refl 5) hremaining (by decide) hearned
  exact ⟨_, t.commit, Candidate.execute_ok.2 ⟨atom, t, rfl, rfl, hrun, rfl⟩, rfl⟩

end Simulation

end Backrun
