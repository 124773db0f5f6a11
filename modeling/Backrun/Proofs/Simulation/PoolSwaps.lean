import Backrun.Proofs.Engine.Progress
import Backrun.Proofs.Simulation.Swaps

/-!
# Constant-product pools, quoted and swapped

A quote and a swap look at the same two reserves (`Trades`).  So a swap returns what a quote on
the same view has promised, to everybody who has the input (`swapPool_succeeds`).  It raises the
one reserve and lowers the other: for the way back through the same pool it is the other way
round (`Trades.after_back`), and other pools stay as they are.

Nothing is paid out for nothing, so that where the last quote along a route is positive, all
quotes before it are (`quotes_positive`).  Without wrapping, more is paid out for a larger input,
out of a larger reserve, and against a smaller one (`payout_mono`).
-/

namespace Backrun.Simulation

variable {a : Account} {hop : Hop} {input output reserveIn reserveOut : Amount} {v w : View}
  {writes : List Write} {frozen : List PoolId} {p : Pool}

/-! ## Reserves -/

theorem loadPool_congr {id : PoolId} (h : w (poolKey id) = v (poolKey id)) :
    loadPool id w = loadPool id v := by
  rw [loadPool, h, loadPool]

/-- The reserves of a pool are its own and do not depend on the view. -/
theorem Pool.reserves_congr (p : Pool) (hop : Hop) (v w : View) :
    p.reserves hop v = p.reserves hop w := by
  rw [Pool.reserves]
  split
  · rfl
  · split <;> rfl

/-- The pool of a hop trades it, with these reserves of what goes in and of what comes out. -/
def Trades (hop : Hop) (reserveIn reserveOut : Amount) (v : View) : Prop :=
  ∃ p, loadPool hop.poolId v = .ok p ∧ p.reserves hop v = .ok (reserveIn, reserveOut)

namespace Trades

theorem congr (h : Trades hop reserveIn reserveOut v)
    (hsame : w (poolKey hop.poolId) = v (poolKey hop.poolId)) :
    Trades hop reserveIn reserveOut w := by
  obtain ⟨p, hpool, hreserves⟩ := h
  exact ⟨p, (loadPool_congr hsame).trans hpool, (p.reserves_congr hop w v).trans hreserves⟩

theorem noWrap (h : Trades hop reserveIn reserveOut v)
    (hfits : (Pools.constantProduct frozen).Fits hop input v) :
    NoWrap input reserveIn reserveOut := by
  obtain ⟨p, hpool, hreserves⟩ := h
  exact hfits p _ _ hpool hreserves

theorem unique {reserveIn' reserveOut' : Amount} (h : Trades hop reserveIn reserveOut v)
    (h' : Trades hop reserveIn' reserveOut' v) :
    reserveIn = reserveIn' ∧ reserveOut = reserveOut' := by
  obtain ⟨p, hpool, hreserves⟩ := h
  obtain ⟨p', hpool', hreserves'⟩ := h'
  obtain rfl : p = p' := Except.ok.inj (hpool.symm.trans hpool')
  exact Prod.mk.inj (Except.ok.inj (hreserves.symm.trans hreserves'))

end Trades

/-! ## Quotes -/

/-- A quote is what the reserves of the pool pay out. -/
theorem quotePool_ok : quotePool hop input v = .ok output
    ↔ ∃ reserveIn reserveOut, Trades hop reserveIn reserveOut v
      ∧ output = payout input reserveIn reserveOut := by
  constructor
  · intro h
    obtain ⟨p, hpool, h⟩ := Verdict.bind_ok.1 h
    obtain ⟨⟨reserveIn, reserveOut⟩, hreserves, h⟩ := Verdict.bind_ok.1 h
    exact ⟨reserveIn, reserveOut, ⟨p, hpool, hreserves⟩, (Except.ok.inj h).symm⟩
  · rintro ⟨reserveIn, reserveOut, ⟨p, hpool, hreserves⟩, rfl⟩
    exact Verdict.bind_ok.2 ⟨p, hpool, Verdict.bind_ok.2 ⟨_, hreserves, rfl⟩⟩

/-- Nothing is paid out for nothing. -/
theorem payout_zero (reserveIn reserveOut : Amount) : payout 0 reserveIn reserveOut = 0 :=
  if_pos (.inl rfl)

/-- Along a route nothing becomes of nothing. -/
theorem quotes_of_zero {hops : List Hop} {outputs : List Amount} {s : Store}
    (h : Route.quoteHops (constantProduct frozen) 0 hops s = .ok outputs) :
    outputs.getLastD 0 = 0 := by
  induction hops generalizing outputs with
  | nil =>
      rw [← Except.ok.inj h]
      rfl
  | cons hop rest ih =>
      obtain ⟨output, others, hquote, hothers, rfl⟩ := Route.quoteHops_cons_ok.1 h
      obtain ⟨_, _, -, hpayout⟩ := quotePool_ok.1 hquote
      rw [payout_zero] at hpayout
      subst hpayout
      rw [List.getLastD_cons]
      exact ih hothers

/-- Where something comes out in the end, every hop pays out something. -/
theorem quotes_positive {hops : List Hop} {outputs : List Amount} {s : Store}
    (h : Route.quoteHops (constantProduct frozen) input hops s = .ok outputs)
    (hlast : outputs.getLastD input ≠ 0) : ∀ x ∈ outputs, x ≠ 0 := by
  induction hops generalizing input outputs with
  | nil =>
      rw [← Except.ok.inj h]
      exact List.forall_mem_nil _
  | cons hop rest ih =>
      obtain ⟨output, others, -, hothers, rfl⟩ := Route.quoteHops_cons_ok.1 h
      rw [List.getLastD_cons] at hlast
      refine List.forall_mem_cons.2 ⟨fun hzero => hlast ?_, ih hothers hlast⟩
      rw [hzero] at hothers ⊢
      exact quotes_of_zero hothers

/-- Something comes out of a found cycle in the end, so something comes out of every hop. -/
theorem pays_of_promising {budget : BudgetState} {frozen : List PoolId} {s : Store}
    {c : Candidate} (h : c.Promising (constantProduct frozen) budget s) :
    ∀ x ∈ c.quote.outputs, x ≠ 0 := by
  refine quotes_positive h.quotes fun hzero => ?_
  have hearns := h.earns
  rw [hzero] at hearns
  exact BitVec.not_lt_zero hearns

/-! ## Payouts -/

/-- A payout needs an input and both reserves. -/
theorem reserves_of_payout (h : payout input reserveIn reserveOut ≠ 0) :
    input ≠ 0 ∧ reserveIn ≠ 0 ∧ reserveOut ≠ 0 := by
  rw [payout] at h
  split at h
  · exact absurd rfl h
  · rename_i hnone
    rw [not_or, not_or] at hnone
    exact hnone

theorem toNat_pos {x : Amount} (h : x ≠ 0) : 0 < x.toNat :=
  Nat.pos_of_ne_zero fun hzero => h (BitVec.eq_of_toNat_eq hzero)

section NoWrap

variable {input' reserveIn' reserveOut' : Amount} (h : NoWrap input reserveIn reserveOut)

include h

/-- A payout leaves something in the reserve. -/
theorem payout_lt (hpays : payout input reserveIn reserveOut ≠ 0) :
    (payout input reserveIn reserveOut).toNat < reserveOut.toNat := by
  obtain ⟨-, hin, hout⟩ := reserves_of_payout hpays
  have hinPos := toNat_pos hin
  rw [toNat_payout h hin]
  exact Nat.div_lt_of_lt_mul ((Nat.mul_lt_mul_right (toNat_pos hout)).2 (by omega))

end NoWrap

/-! ## Swaps -/

/-- What a pool that is not frozen pays out it pays out to everybody who has the input. -/
theorem swapPool_succeeds (hfree : hop.poolId ∉ frozen) (h : Trades hop reserveIn reserveOut v)
    (hpays : payout input reserveIn reserveOut ≠ 0)
    (hfunds : input.toNat ≤ (balance a hop.denomIn v).toNat) :
    ∃ writes, swapPool frozen a hop input v
      = (.ok (payout input reserveIn reserveOut), writes) := by
  obtain ⟨p, hpool, hreserves⟩ := h
  rw [swapPool, if_neg hfree, Effect.inspect_bind_of_ok hpool, Effect.inspect_bind_of_ok hreserves]
  dsimp only
  rw [if_neg hpays]
  exact ⟨_, Effect.bind_ok.2 ⟨(), _, _, debit_ok.2 ⟨hfunds, rfl⟩,
    Effect.bind_ok.2 ⟨(), _, _, rfl, Effect.bind_ok.2 ⟨(), _, [], rfl, rfl, rfl⟩, rfl⟩, rfl⟩⟩

theorem Pool.reserves_forth (hA : hop.denomIn = p.denomA) (hB : hop.denomOut = p.denomB)
    (v : View) : p.reserves hop v = .ok (p.reserveA, p.reserveB) := by
  rw [Pool.reserves, if_pos ⟨hA, hB⟩]
  rfl

theorem Pool.reserves_back (hB : hop.denomIn = p.denomB) (hA : hop.denomOut = p.denomA)
    (hne : hop.denomIn ≠ hop.denomOut) (v : View) :
    p.reserves hop v = .ok (p.reserveB, p.reserveA) := by
  rw [Pool.reserves, if_neg fun h => hne (h.1.trans hA.symm), if_pos ⟨hB, hA⟩]
  rfl

section Swapped

variable {next : Hop} (h : swapPool frozen a hop input v = (.ok output, writes))

include h

/-- What is returned is paid out of the reserves, and it is not nothing. -/
theorem swapPool_returns : ∃ reserveIn reserveOut, Trades hop reserveIn reserveOut v
    ∧ output = payout input reserveIn reserveOut := by
  obtain ⟨p, reserveIn, reserveOut, given, hpool, hreserves, hpayout, -, -⟩ := swapPool_ok h
  exact ⟨reserveIn, reserveOut, ⟨p, hpool, hreserves⟩, hpayout⟩

/-- A swap changes the pool that it goes through, and no other one. -/
theorem swapPool_pools : (∀ p, loadPool hop.poolId v = .ok p →
      loadPool hop.poolId (v.afterAll writes) = .ok (p.after hop input output))
    ∧ ∀ id, id ≠ hop.poolId → v.afterAll writes (poolKey id) = v (poolKey id) := by
  obtain ⟨p, reserveIn, reserveOut, given, hpool, hreserves, hpayout, hgiven, rfl⟩ := swapPool_ok h
  have hsame : SamePools v
      (v.afterAll (given ++ (credit a ⟨hop.denomOut, output⟩ (v.afterAll given)).2)) := by
    rw [View.afterAll_append]
    exact (samePools_debit hgiven).trans (samePools_credit a _ _)
  rw [View.afterAll_append, View.afterAll_cons, View.afterAll_nil]
  constructor
  · intro p' hpool'
    obtain rfl : p = p' := Except.ok.inj (hpool.symm.trans hpool')
    exact loadPool_after _ _ _
  · exact fun id hid => (View.after_of_ne _ fun heq => hid (poolKey_injective heq)).trans (hsame id)

/-- For the hops of other pools nothing changes. -/
theorem Trades.after_other (ht : Trades next reserveIn reserveOut v)
    (hother : next.poolId ≠ hop.poolId) : Trades next reserveIn reserveOut (v.afterAll writes) :=
  ht.congr ((swapPool_pools h).2 _ hother)

/-- For the same hop once more the input has come in and the output has gone out. -/
theorem Trades.after_same (ht : Trades hop reserveIn reserveOut v)
    (hchanges : hop.denomIn ≠ hop.denomOut) :
    Trades hop (reserveIn + input) (reserveOut - output) (v.afterAll writes) := by
  obtain ⟨p, hpool, hreserves⟩ := ht
  refine ⟨_, (swapPool_pools h).1 p hpool, ?_⟩
  rcases Pool.reserves_ok hreserves with ⟨hA, hB, rfl, rfl⟩ | ⟨hB, hA, rfl, rfl⟩
  · rw [Pool.after, if_pos hA]
    refine Pool.reserves_forth ?_ ?_ _ <;> assumption
  · rw [Pool.after, if_neg fun heq => hchanges (heq.trans hA.symm)]
    refine Pool.reserves_back ?_ ?_ hchanges _ <;> assumption

/-- For the way back through the pool it is the other way round. -/
theorem Trades.after_back (ht : Trades next reserveIn reserveOut v)
    (hchanges : hop.denomIn ≠ hop.denomOut) (hpool : next.poolId = hop.poolId)
    (hback : next ≠ hop) : Trades hop reserveOut reserveIn v
      ∧ Trades next (reserveIn - output) (reserveOut + input) (v.afterAll writes) := by
  obtain ⟨_, _, ⟨p, hown, hreserves⟩, -⟩ := swapPool_returns h
  obtain ⟨p', hnext, hreserves'⟩ := ht
  rw [hpool, hown] at hnext
  obtain rfl := Except.ok.inj hnext
  have hafter := (swapPool_pools h).1 p hown
  rw [← hpool] at hafter
  -- Two hops of one pool in the same direction are the same hop.
  have hopposed : ¬ (next.denomIn = hop.denomIn ∧ next.denomOut = hop.denomOut) := by
    rintro ⟨hin, hout⟩
    exact hback (by rw [Hop.mk.injEq]; exact ⟨hpool, hin, hout⟩)
  rcases Pool.reserves_ok hreserves with ⟨hA, hB, rfl, rfl⟩ | ⟨hB, hA, rfl, rfl⟩
  · rcases Pool.reserves_ok hreserves' with ⟨hA', hB', -, -⟩ | ⟨hB', hA', rfl, rfl⟩
    · exact absurd ⟨hA'.trans hA.symm, hB'.trans hB.symm⟩ hopposed
    · refine ⟨⟨p, hown, hreserves⟩, _, hafter, ?_⟩
      rw [Pool.after, if_pos hA]
      have hnext : next.denomIn ≠ next.denomOut := by
        rw [hB', hA', ← hA, ← hB]
        exact hchanges.symm
      refine Pool.reserves_back ?_ ?_ hnext _ <;> assumption
  · rcases Pool.reserves_ok hreserves' with ⟨hA', hB', rfl, rfl⟩ | ⟨hB', hA', -, -⟩
    · refine ⟨⟨p, hown, hreserves⟩, _, hafter, ?_⟩
      rw [Pool.after, if_neg fun heq => hchanges (heq.trans hA.symm)]
      refine Pool.reserves_forth ?_ ?_ _ <;> assumption
    · exact absurd ⟨hB'.trans hB.symm, hA'.trans hA.symm⟩ hopposed

end Swapped

/-! ## Routes within words -/

/-- Whether no operation of quotes of hops one after the other wraps. -/
def QuotesFit : Amount → List Hop → View → Prop
  | _, [], _ => True
  | input, hop :: rest, v => (Pools.constantProduct []).Fits hop input v
      ∧ ∀ output, quotePool hop input v = .ok output → QuotesFit output rest v

/-- Whether no operation of swaps through hops one after the other wraps, those of a swap that is
refused included. -/
def SwapsFit (frozen : List PoolId) (a : Account) : Amount → List Hop → View → Prop
  | _, [], _ => True
  | input, hop :: rest, v => (Pools.constantProduct frozen).Fits hop input v
      ∧ ∀ output writes, swapPool frozen a hop input v = (.ok output, writes) →
        RoomFor a hop input output v ∧ SwapsFit frozen a output rest (v.afterAll writes)

theorem SwapsFit.eachSwap {hops : List Hop} (h : SwapsFit frozen a input hops v) :
    EachSwap (constantProduct frozen) a
      (fun hop x y v => RoomFor a hop x y v ∧ (Pools.constantProduct frozen).Fits hop x v) input
      hops v := by
  induction hops generalizing input v with
  | nil => trivial
  | cons hop rest ih =>
      intro output writes hswap
      obtain ⟨hroom, hrest⟩ := h.2 output writes hswap
      exact ⟨⟨hroom, h.1⟩, ih hrest⟩

/-- Where nothing wraps, a payout is there for the swaps that follow. -/
theorem SwapsFit.swap {rest : List Hop} (h : SwapsFit frozen a input (hop :: rest) v)
    (hchanges : hop.denomIn ≠ hop.denomOut) (hfree : hop.poolId ∉ frozen)
    (ht : Trades hop reserveIn reserveOut v) (hpayout : payout input reserveIn reserveOut = output)
    (hpays : output ≠ 0) (hfunds : input.toNat ≤ (balance a hop.denomIn v).toNat) :
    ∃ writes, swapPool frozen a hop input v = (.ok output, writes)
      ∧ output.toNat ≤ (balance a hop.denomOut (v.afterAll writes)).toNat
      ∧ SwapsFit frozen a output rest (v.afterAll writes) := by
  subst hpayout
  obtain ⟨writes, hswap⟩ := swapPool_succeeds hfree ht hpays hfunds
  obtain ⟨hroom, hrest⟩ := h.2 _ writes hswap
  have hmoved := (Pools.constantProduct frozen).swap_moved hswap hchanges hroom
  exact ⟨writes, hswap, hmoved.received_of_ne hchanges, hrest⟩

end Backrun.Simulation
