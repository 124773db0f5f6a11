import Backrun.Proofs.Simulation.PoolSwaps
import Backrun.Proofs.Simulation.QuotedCycles

/-!
# Modest amounts

Words are wide.  Where no balance of an account and no reserve of a pool is above a number, a
swap of at most that number at most doubles them (`Modest.swap`).  So along a route they stay
below the number times a power of two, and as long as the products of such numbers are words,
nothing wraps on the way (`Modest.swapsFit`), nor does it where the route is quoted
(`Modest.quotesFit`).
-/

namespace Backrun

namespace Simulation

/-- No balance of the account and no reserve of a pool is above a number. -/
structure Modest (a : Account) (n : Nat) (v : View) : Prop where
  balances : AtMost a n v
  reserves : ∀ id p, loadPool id v = .ok p → p.reserveA.toNat ≤ n ∧ p.reserveB.toNat ≤ n

variable {a : Account} {n m : Nat} {v : View} {hop : Hop}
  {input output reserveIn reserveOut : Amount} {writes : List Write} {frozen : List PoolId}

theorem noWrap_of_le (hwords : 2000 * (n * (n + 1)) < Amount.bound) (hinput : input.toNat ≤ n)
    (hin : reserveIn.toNat ≤ n) (hout : reserveOut.toNat ≤ n) :
    NoWrap input reserveIn reserveOut := by
  rw [Nat.mul_succ] at hwords
  have hproduct : input.toNat * 997 * reserveOut.toNat ≤ n * 997 * n :=
    Nat.mul_le_mul (Nat.mul_le_mul_right _ hinput) hout
  have hsquare : n * 997 * n = 997 * (n * n) := by rw [Nat.mul_comm n 997, Nat.mul_assoc]
  exact ⟨by omega, by omega, by omega⟩

namespace Modest

theorem trades (h : Modest a n v) (ht : Trades hop reserveIn reserveOut v) :
    reserveIn.toNat ≤ n ∧ reserveOut.toNat ≤ n := by
  obtain ⟨p, hpool, hreserves⟩ := ht
  obtain ⟨hA, hB⟩ := h.reserves _ p hpool
  rcases Pool.reserves_ok hreserves with ⟨-, -, rfl, rfl⟩ | ⟨-, -, rfl, rfl⟩
  · exact ⟨hA, hB⟩
  · exact ⟨hB, hA⟩

section Words

variable (hwords : 2000 * (m * (m + 1)) < Amount.bound) (hle : n ≤ m)

include hwords hle

/-- Nothing wraps in a swap of a modest input. -/
theorem fits (h : Modest a n v) (hinput : input.toNat ≤ n) :
    (Pools.constantProduct frozen).Fits hop input v := by
  intro p reserveIn reserveOut hpool hreserves
  obtain ⟨hin, hout⟩ := h.trades ⟨p, hpool, hreserves⟩
  exact noWrap_of_le hwords (hinput.trans hle) (hin.trans hle) (hout.trans hle)

/-- A swap at most doubles the amounts, and returns no more than there was. -/
theorem swap (h : Modest a n v) (hinput : input.toNat ≤ n)
    (hswap : swapPool frozen a hop input v = (.ok output, writes))
    (hchanges : hop.denomIn ≠ hop.denomOut) :
    RoomFor a hop input output v ∧ output.toNat ≤ n ∧ Modest a (n * 2) (v.afterAll writes) := by
  obtain ⟨reserveIn, reserveOut, ⟨p, hpool, hreserves⟩, hpayout⟩ := swapPool_returns hswap
  obtain ⟨hin, hout⟩ := h.trades ⟨p, hpool, hreserves⟩
  have hnowrap := noWrap_of_le hwords (hinput.trans hle) (hin.trans hle) (hout.trans hle)
  have hleaves : output.toNat ≤ reserveOut.toNat := hpayout ▸ payout_le hnowrap
  have houtput := hleaves.trans hout
  have hroom : RoomFor a hop input output v :=
    h.balances.hasRoom (by rw [Nat.mul_succ] at hwords; dsimp only; omega)
  refine ⟨hroom, houtput, ⟨fun d => ?_, fun id q hq => ?_⟩⟩
  · have hmoved := (Pools.constantProduct frozen).swap_moved hswap hchanges hroom
    exact (h.balances.moved hmoved d).trans (by dsimp only; omega)
  · obtain ⟨hown, hothers⟩ := swapPool_pools hswap
    have hgrown := Amount.toNat_add hnowrap.reserve
    have hshrunk : (reserveOut - output).toNat = reserveOut.toNat - output.toNat :=
      BitVec.toNat_sub_of_le (Amount.le_iff.2 hleaves)
    by_cases hid : id = hop.poolId
    · rw [hid, hown p hpool] at hq
      rw [← Except.ok.inj hq]
      rcases Pool.reserves_ok hreserves with ⟨hA, -, rfl, rfl⟩ | ⟨hB, hA, rfl, rfl⟩
      · rw [Pool.after, if_pos hA]
        dsimp only
        omega
      · rw [Pool.after, if_neg fun heq => hchanges (heq.trans hA.symm)]
        dsimp only
        omega
    · rw [loadPool_congr (hothers id hid)] at hq
      obtain ⟨hA, hB⟩ := h.reserves id q hq
      omega

end Words

section Hops

variable {hops : List Hop} {start finish : Denom}

/-- Along hops the amounts at most double each time. -/
theorem swapsFit (hleads : Route.Leads start hops finish)
    (hwords : 2000 * (m * (m + 1)) < Amount.bound) (hcap : n * 2 ^ hops.length ≤ m)
    (h : Modest a n v) (hinput : input.toNat ≤ n) : SwapsFit frozen a input hops v := by
  have hle : n ≤ m := (Nat.le_mul_of_pos_right n (Nat.two_pow_pos _)).trans hcap
  induction hops generalizing start input n v with
  | nil => trivial
  | cons hop rest ih =>
      refine ⟨h.fits hwords hle hinput, fun output writes hswap => ?_⟩
      rw [List.length_cons, Nat.pow_succ', ← Nat.mul_assoc] at hcap
      cases hleads with
      | hop changes onwards =>
          obtain ⟨hroom, houtput, hafter⟩ := h.swap hwords hle hinput hswap changes
          exact ⟨hroom, ih onwards hcap hafter (by omega)
            ((Nat.le_mul_of_pos_right _ (Nat.two_pow_pos _)).trans hcap)⟩

end Hops

end Modest

end Simulation

open Simulation

namespace Candidate

variable {vault : Account} {c : Candidate} {base finish : Denom} {s : Store} {n m : Nat} {v : View}

/-- What is borrowed at most doubles the balances, and leaves the pools alone. -/
theorem modest_of_startsFrom (hmodest : Modest vault n s.get) (hinput : c.quote.input.toNat ≤ n)
    (hwords : 2 * n < Amount.bound) (hstart : c.StartsFrom Simulation.bank vault base s v) :
    HasRoom vault ⟨base, c.quote.input⟩ s.get ∧ Modest vault (n * 2) v := by
  obtain ⟨debited, writes, hdebit, hmint, rfl⟩ := hstart
  have houtside := Budget.sameOutside_tryConsume hdebit
  have hsame := fun d => balance_congr (houtside _ (balanceKey_outside vault d))
  have hroom : HasRoom vault ⟨base, c.quote.input⟩ s.get :=
    hmodest.balances.hasRoom (by dsimp only; omega)
  have hdebited : HasRoom vault ⟨base, c.quote.input⟩ debited.get := by
    rw [HasRoom, hsame]
    exact hroom
  have hborrowed := (houtside.moved vault).trans (moved_credit hdebited)
  have hpools := houtside.samePools.trans (samePools_credit vault ⟨base, c.quote.input⟩ debited.get)
  have hwrites : credit vault ⟨base, c.quote.input⟩ debited.get = (.ok (), writes) := hmint
  rw [hwrites] at hborrowed hpools
  refine ⟨hroom, fun d => (hmodest.balances.moved hborrowed d).trans (by dsimp only; omega),
    fun id p hp => ?_⟩
  rw [loadPool_congr (hpools id)] at hp
  obtain ⟨hA, hB⟩ := hmodest.reserves id p hp
  omega

/-- A route with a modest input stays within words where balances and reserves are modest. -/
theorem within_modest (frozen : List PoolId) (hleads : Route.Leads base c.route.hops finish)
    (hbase : c.route.base? = some base) (hmodest : Modest vault n s.get)
    (hinput : c.quote.input.toNat ≤ n) (hwords : 2000 * (m * (m + 1)) < Amount.bound)
    (hcap : n * 2 * 2 ^ c.route.hops.length ≤ m) :
    c.Within
      (fun hop x y v => RoomFor vault hop x y v ∧ (Pools.constantProduct frozen).Fits hop x v)
      (constantProduct frozen) Simulation.bank vault s := by
  intro base' debited writes hbase' hdebit hmint
  obtain rfl := Option.some.inj (hbase.symm.trans hbase')
  have hdouble : n * 2 ≤ m := (Nat.le_mul_of_pos_right _ (Nat.two_pow_pos _)).trans hcap
  obtain ⟨hroom, hminted⟩ := modest_of_startsFrom hmodest hinput
    (by rw [Nat.mul_succ] at hwords; omega) ⟨debited, writes, hdebit, hmint, rfl⟩
  refine ⟨?_, (hminted.swapsFit hleads hwords hcap (by omega)).eachSwap⟩
  have houtside := Budget.sameOutside_tryConsume hdebit
  rw [HasRoom, balance_congr (houtside _ (balanceKey_outside vault base))]
  exact hroom

end Candidate

end Backrun
