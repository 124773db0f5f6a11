import Backrun.Proofs.Cycle.Recorded
import Backrun.Proofs.Simulation.Swaps

/-!
# Cycles through the simulated pools

An executed cycle borrows its input, trades it around and repays it.  Whatever it comes through
on the way, all that is left in the vault is the profit: its balance of the base denomination
has grown by it, and no other balance has changed (`Candidate.executeFrom_moved`).

That holds of every engine that is `Simulated`: its pools and its bank do what the simulated
ones do or fail, wherever they like and whatever they have written by then.
-/

namespace Backrun

open Simulation

/-! ## Simulated engines -/

/-- An engine whose pools and bank do what the simulated ones do, or fail. What they quote and
show does not matter. -/
structure Engine.Simulated (e : Engine) (pools : Pools) : Prop where
  swap : ∀ a hop x, (e.market.swap a hop x).Falters (pools.market.swap a hop x)
  mint : ∀ a c, (e.bank.mint a c).Falters (credit a c)
  burn : ∀ a c, (e.bank.burn a c).Falters (debit a c)
  transfer : ∀ a b c, (e.bank.transfer a b c).Falters (Simulation.bank.transfer a b c)

namespace Engine.Simulated

variable {e : Engine} {pools : Pools}

theorem staysOutside (h : e.Simulated pools) : e.StaysOutside where
  market := ⟨fun a hop x => (h.swap a hop x).isOutside (pools.staysOutside.swap a hop x)⟩
  bank := {
    transfer := fun a b c => (h.transfer a b c).isOutside (bank_staysOutside.transfer a b c)
    mint := fun a c => (h.mint a c).isOutside (credit_outside a c)
    burn := fun a c => (h.burn a c).isOutside (debit_outside a c) }

/-- The simulated pools and the simulated bank themselves. -/
theorem plain (pools : Pools) (vault authority : Account) :
    Engine.Simulated ⟨pools.market, Simulation.bank, vault, authority⟩ pools where
  swap _ _ _ := .refl _
  mint _ _ := .refl _
  burn _ _ := .refl _
  transfer _ _ _ := .refl _

/-- A bank that refuses blocked denominations is one that fails. -/
theorem disturbed (h : e.Simulated pools) (d : Disturbance) :
    Engine.Simulated { e with bank := d.bank e.bank } pools := by
  have hguard : ∀ {blocked c fault} {effect ideal : Effect Unit}, effect.Falters ideal →
      (Disturbance.guard blocked c fault effect).Falters ideal := by
    intro blocked c fault effect ideal hfalters
    rw [Disturbance.guard]
    split
    · exact fun v => .inr ⟨fault, [], rfl, List.forall_mem_nil _⟩
    · exact hfalters
  exact ⟨h.swap, fun a c => hguard (h.mint a c), fun a c => hguard (h.burn a c),
    fun a b c => hguard (h.transfer a b c)⟩

end Engine.Simulated

/-! ## What the engine itself writes -/

namespace Store

variable {s t u : Store}

/-- The second store holds the same under all keys outside those of the engine. -/
def SameOutside (s t : Store) : Prop := ∀ k, ¬ Key.IsEngine k → t.get k = s.get k

theorem SameOutside.refl (s : Store) : SameOutside s s := fun _ _ => rfl

theorem SameOutside.trans (hst : SameOutside s t) (htu : SameOutside t u) : SameOutside s u :=
  fun k hk => (htu k hk).trans (hst k hk)

theorem sameOutside_set (s : Store) {k : Bytes} (hk : Key.IsEngine k) (b : Bytes) :
    SameOutside s (s.set k b) :=
  fun _ hk' => get_set_of_ne s b fun heq => hk' (heq ▸ hk)

/-- Then no balance has moved, and no pool has changed. -/
theorem SameOutside.moved (h : SameOutside s t) (a : Account) : Moved a [] [] s.get t.get :=
  .of_same fun a' d => h _ (balanceKey_outside a' d)

theorem SameOutside.samePools (h : SameOutside s t) : SamePools s.get t.get :=
  fun id => h _ (poolKey_outside id)

end Store

/-- The debit of the points writes the counter only. -/
theorem Budget.sameOutside_tryConsume {s t : Store} {points : UInt64} {u : Unit}
    (h : (tryConsume points).perform s = (.ok u, t)) : Store.SameOutside s t := by
  obtain ⟨_, _, -, -, -, rfl⟩ := counter_of_tryConsume h
  exact s.sameOutside_set (Key.isEngine_of_kind Key.kind_pointCounter) _

/-- The booking and the count write the books only. -/
theorem Ledger.sameOutside_book {s t booked : Store} {now : Instant} {profit : Coin}
    {split : ProfitSplit} {count : UInt64}
    (hbook : (book now profit).perform s = (.ok split, booked))
    (hcount : countTrade.perform booked = (.ok count, t)) : Store.SameOutside s t := by
  obtain ⟨-, hframe⟩ := book_posts hbook
  obtain ⟨_, -, -, rfl⟩ := countTrade_ok.1 hcount
  have hbooked : Store.SameOutside s booked := fun k hk => hframe k
    (fun heq => hk (heq ▸ Key.isEngine_of_kind (Key.kind_developerFees profit.denom)))
    fun heq => hk (heq ▸ Key.isEngine_of_kind (Key.kind_profits profit.denom))
  exact hbooked.trans (booked.sameOutside_set (Key.isEngine_of_kind Key.kind_tradeCount) _)

/-! ## The balance of the vault -/

/-- What is borrowed is repaid, and the rest of the output is the profit. -/
theorem Coin.totalIn_cycle {base d : Denom} {input output : Amount} (hless : input < output) :
    totalIn d [⟨base, input⟩, ⟨base, input⟩] + totalIn d [⟨base, output - input⟩]
      = totalIn d [⟨base, input⟩, ⟨base, output⟩] := by
  have hprofit : (output - input).toNat = output.toNat - input.toNat :=
    BitVec.toNat_sub_of_le (BitVec.le_of_lt hless)
  have hlt : input.toNat < output.toNat := hless
  simp only [totalIn_cons, totalIn_nil, amountIn, hprofit]
  split <;> omega

namespace Candidate

variable {e : Engine} {pools : Pools} {c : Candidate} {block : Block} {base : Denom}
  {done : Trade} {s t : Store} {P Q : Hop → Amount → Amount → View → Prop}

/-- Whether, where the cycle is executed, there is room for the borrowed input in the balance of
the vault, and a condition holds at every swap. -/
def Within (P : Hop → Amount → Amount → View → Prop) (market : Market) (bank : Bank)
    (vault : Account) (c : Candidate) (s : Store) : Prop :=
  ∀ base debited writes, c.route.base? = some base →
    (Budget.tryConsume c.cost).perform s = (.ok (), debited) →
    bank.mint vault ⟨base, c.quote.input⟩ debited.get = (.ok (), writes) →
    HasRoom vault ⟨base, c.quote.input⟩ debited.get
      ∧ EachSwap market vault P c.quote.input c.route.hops (View.afterAll debited.get writes)

theorem Within.imp {market : Market} {bank : Bank} {vault : Account}
    (h : c.Within P market bank vault s) (himp : ∀ {hop x y v}, P hop x y v → Q hop x y v) :
    c.Within Q market bank vault s := by
  intro base debited writes hbase hdebit hmint
  obtain ⟨hroom, hswaps⟩ := h base debited writes hbase hdebit hmint
  exact ⟨hroom, hswaps.imp himp⟩

/-- Around its swaps an executed cycle borrows its input and repays it. The rest of the output is
booked as profit. -/
theorem executeFrom_around (he : e.Simulated pools) (hbase : c.route.base? = some base)
    (hwithin : c.Within P e.market e.bank e.vault s)
    (hdone : (c.executeFrom base e.market e.bank e.vault block).perform s = (.ok done, t)) :
    ∃ minted swapped output,
      (Moved e.vault [] [⟨base, c.quote.input⟩] s.get minted.get ∧ SamePools s.get minted.get)
      ∧ EachSwap e.market e.vault P c.quote.input c.route.hops minted.get
      ∧ (swapAll e.market e.vault c.quote.input (c.route.hops.zip c.quote.outputs)).perform minted
        = (.ok output, swapped)
      ∧ c.quote.input < output ∧ done.profit = ⟨base, output - c.quote.input⟩
      ∧ Moved e.vault [⟨base, c.quote.input⟩] [] swapped.get t.get
      ∧ SamePools swapped.get t.get := by
  obtain ⟨debited, minted, swapped, burned, booked, output, split, count, hdebit, hmint, hswap,
    hless, hburn, hbook, hcount, rfl⟩ := executeFrom_ok.1 hdone
  obtain ⟨lent, hlent, hminted⟩ := Action.call_ok hmint
  obtain ⟨returned, hreturned, hburned⟩ := Action.call_ok hburn
  obtain ⟨hroom, hswaps⟩ := hwithin base debited lent hbase hdebit hlent
  have hdebited := Budget.sameOutside_tryConsume hdebit
  have hbooked := Ledger.sameOutside_book hbook hcount
  -- The bank credits the input before the swaps and debits it after them.
  have hcredit := (he.mint e.vault _).ok hlent
  have hrepay := (he.burn e.vault _).ok hreturned
  have hborrowed := moved_credit hroom
  have hpools := samePools_credit e.vault ⟨base, c.quote.input⟩ debited.get
  rw [hcredit, ← hminted] at hborrowed hpools
  rw [← hminted] at hswaps
  have hrepaid := moved_debit hrepay
  have hpools' := samePools_debit hrepay
  rw [← hburned] at hrepaid hpools'
  exact ⟨minted, swapped, output, ⟨(hdebited.moved e.vault).trans hborrowed,
    hdebited.samePools.trans hpools⟩, hswaps, hswap, hless, rfl,
    hrepaid.trans (hbooked.moved e.vault), hpools'.trans hbooked.samePools⟩

/-- The hops that are swapped are those of the route. -/
theorem hops_of_zip (hlength : c.quote.outputs.length = c.route.hops.length) :
    (c.route.hops.zip c.quote.outputs).map Prod.fst = c.route.hops :=
  List.map_fst_zip (Nat.le_of_eq hlength.symm)

/-- The profit is left in the balance of the vault, and nothing else. -/
theorem executeFrom_moved (he : e.Simulated pools) (hbase : c.route.base? = some base)
    (hleads : Route.Leads base c.route.hops base)
    (hlength : c.quote.outputs.length = c.route.hops.length)
    (hwithin : c.Within (RoomFor e.vault) e.market e.bank e.vault s)
    (hdone : (c.executeFrom base e.market e.bank e.vault block).perform s = (.ok done, t)) :
    Moved e.vault [] [done.profit] s.get t.get := by
  obtain ⟨minted, swapped, output, ⟨hborrowed, -⟩, hswaps, hswap, hless, hprofit, hrepaid, -⟩ :=
    executeFrom_around he hbase hwithin hdone
  rw [← hops_of_zip hlength] at hleads hswaps
  have htraded := swapAll_moved (fun hop x => he.swap e.vault hop x) hleads hswaps hswap
  rw [hprofit]
  exact ((hborrowed.trans htraded).trans hrepaid).of_totals fun d =>
    (Coin.totalIn_cycle hless).trans (Nat.zero_add _).symm

/-- An executed cycle leaves its profit in the balance of the vault, and nothing else. -/
theorem execute_moved {mostHops : UInt64} (he : e.Simulated pools)
    (hcycle : c.route.IsCycle mostHops)
    (hwithin : c.Within (RoomFor e.vault) e.market e.bank e.vault s.openBranch)
    (hdone : (c.execute e.market e.bank e.vault block).perform s = (.ok done, t)) :
    Moved e.vault [] [done.profit] s.get t.get := by
  obtain ⟨base, last, hbase, hlength, hlast, rfl⟩ := execute_ok.1 hdone
  obtain ⟨base', hbase', hleads⟩ := hcycle.leads
  rw [hbase] at hbase'
  cases hbase'
  have hview : last.commit.get = last.get := funext (Store.get_commit last)
  have hmoved : Moved e.vault [] [done.profit] s.openBranch.get last.get :=
    executeFrom_moved he hbase hleads hlength hwithin hlast
  rw [hview]
  exact hmoved

/-- Through constant-product pools, what is borrowed and repaid is all that comes and goes. -/
theorem executeFrom_supply {frozen : List PoolId} {vault : Account}
    (hbase : c.route.base? = some base) (hleads : Route.Leads base c.route.hops base)
    (hlength : c.quote.outputs.length = c.route.hops.length)
    (hwithin : c.Within
      (fun hop x y v => RoomFor vault hop x y v ∧ (Pools.constantProduct frozen).Fits hop x v)
      (constantProduct frozen) Simulation.bank vault s)
    (hdone : (c.executeFrom base (constantProduct frozen) Simulation.bank vault block).perform s
      = (.ok done, t)) (d : Denom) : supply d t.get = supply d s.get := by
  obtain ⟨minted, swapped, output, ⟨hborrowed, hpools⟩, hswaps, hswap, -, -, hrepaid, hpools'⟩ :=
    executeFrom_around (.plain (.constantProduct frozen) vault vault) hbase hwithin hdone
  rw [← hops_of_zip hlength] at hleads hswaps
  have htraded : supply d swapped.get = supply d minted.get :=
    swapAll_supply hleads hswaps hswap d
  have hlent := hborrowed.supply_eq hpools d
  have hreturned := hrepaid.supply_eq hpools' d
  rw [Coin.totalIn_nil] at hlent hreturned
  omega

end Candidate

end Backrun
