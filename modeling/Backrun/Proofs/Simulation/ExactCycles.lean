import Backrun.Proofs.Simulation.BonusCycles

/-!
# The exact effect of an executed cycle

With the simulated pools and the simulated bank, everything that an executed cycle changes can be
listed: the vault's balance of the base denomination, the pools on the way, and four records of
the engine.  However long the route is and however often it comes through a pool or a
denomination, what was borrowed has been repaid and nothing is left over on the way.
-/

namespace Backrun

open Simulation

/-- **The exact effect of a cycle.**  Where no operation of the pools and the bank on words wraps,
an executed cycle leaves the vault with the profit, which is positive, on top of its balance of
the base denomination.  No other balance changes; with constant-product pools balances and
reserves together stay the same in every denomination; and the records of the engine change as
`Recorded` says. -/
theorem Candidate.execute_exact {pools : Pools} {vault : Account} {block : Block} {c : Candidate}
    {mostHops : UInt64} {s t : Store} {done : Trade}
    (hroute : c.route.validate mostHops = .ok ())
    (hwithin : c.Within (fun hop x y v => RoomFor vault hop x y v ∧ pools.Fits hop x v)
      pools.market Simulation.bank vault s.openBranch)
    (hdone : (c.execute pools.market Simulation.bank vault block).perform s = (.ok done, t)) :
    ∃ base, c.route.base? = some base
      ∧ done.input = c.quote.input ∧ done.points = c.cost ∧ done.profit.denom = base
      ∧ 0 < done.profit.amount.toNat
      ∧ done.output.toNat = done.input.toNat + done.profit.amount.toNat
      ∧ (balance vault base t.get).toNat
        = (balance vault base s.get).toNat + done.profit.amount.toNat
      ∧ (∀ a d, a ≠ vault ∨ d ≠ base → balance a d t.get = balance a d s.get)
      ∧ (∀ frozen, pools = .constantProduct frozen → ∀ d, supply d t.get = supply d s.get)
      ∧ Recorded s t done := by
  have hcycle := Route.validate_ok.1 hroute
  have hplain := Engine.Simulated.plain pools vault vault
  have hrecorded : Recorded s t done := Candidate.execute_recorded hplain.staysOutside hdone
  have hmoved : Moved vault [] [done.profit] s.get t.get :=
    Candidate.execute_moved hplain hcycle (hwithin.imp And.left) hdone
  obtain ⟨base, last, hbase, hlength, hlast, rfl⟩ := Candidate.execute_ok.1 hdone
  have hview : last.commit.get = last.get := funext (Store.get_commit last)
  obtain ⟨_, _, _, _, _, output, _, _, -, -, -, hless, -, -, -, rfl⟩ :=
    Candidate.executeFrom_ok.1 hlast
  have hprofit : (output - c.quote.input).toNat = output.toNat - c.quote.input.toNat :=
    BitVec.toNat_sub_of_le (BitVec.le_of_lt hless)
  have hlt : c.quote.input.toNat < output.toNat := hless
  refine ⟨base, hbase, rfl, rfl, rfl, ?_, ?_, ?_, fun a d hother => ?_, fun frozen hpools d => ?_,
    hrecorded⟩
  · dsimp only
    omega
  · dsimp only
    omega
  · have hown := hmoved.own base
    simp only [Coin.totalIn_cons, Coin.totalIn_nil, Coin.amountIn, if_true] at hown
    exact hown
  · rcases eq_or_ne a vault with rfl | hne
    · have hd : d ≠ base := hother.resolve_left (not_not_intro rfl)
      have hown := hmoved.own d
      rw [Coin.totalIn_cons, Coin.amountIn_of_ne hd] at hown
      exact BitVec.eq_of_toNat_eq hown
    · exact hmoved.others a hne d
  · obtain ⟨base', hbase', hleads⟩ := hcycle.leads
    rw [hbase] at hbase'
    cases hbase'
    subst hpools
    rw [hview]
    exact Candidate.executeFrom_supply hbase hleads hlength hwithin hlast d

/-- Once around the ring leaves two hundred in the vault, and one more trade. -/
theorem Candidate.execute_exact_ring :
    ∃ s t done, (ringCandidate.execute ring.market ring.bank ring.vault ⟨10, .epoch⟩).perform s
        = (.ok done, t)
      ∧ roundTrip.validate 2 = .ok () ∧ done.profit = ⟨atom, 200⟩
      ∧ (balance ring.vault atom s.get).toNat = 0 ∧ (balance ring.vault atom t.get).toNat = 200
      ∧ balance ring.vault osmo t.get = balance ring.vault osmo s.get ∧ Recorded s t done := by
  obtain ⟨s, hgenesis, hstart⟩ := exists_turning validate_roundTripGenesis
  have hnothing : ∀ d, balance ring.vault d s.get = 0 := balance_of_import hgenesis ring.vault
  have hwithin : ringCandidate.Within (RoomFor ring.vault) ring.market ring.bank ring.vault
      s.openBranch := ring_within (fun d => Nat.le_of_eq (congrArg BitVec.toNat (hnothing d)))
        (by decide)
  have hvalid : roundTrip.validate 2 = .ok () := by decide
  obtain ⟨done, t, hdone, hprofit⟩ := ring_executes hstart.coherent (by decide) hwithin
    (Nat.lt_of_le_of_lt (Nat.add_le_add_right hstart.earned 200) (by decide)) ⟨10, .epoch⟩
  have hbonus : ringCandidate.Within (fun hop x y v => RoomFor ring.vault hop x y v
      ∧ (Pools.bonus ringPools).Fits hop x v) (Pools.bonus ringPools).market Simulation.bank
      ring.vault s.openBranch := hwithin.imp fun hroom => ⟨hroom, trivial⟩
  obtain ⟨base, hbase, -, -, -, -, -, hgrown, hothers, -, hrecorded⟩ :=
    Candidate.execute_exact hvalid hbonus hdone
  obtain rfl : atom = base := Option.some.inj hbase
  refine ⟨s, t, done, hdone, hvalid, hprofit, ?_, ?_, hothers _ _ (.inr (by decide)), hrecorded⟩
  · rw [hnothing]
    rfl
  · rw [hgrown, hnothing, hprofit]
    rfl

end Backrun
