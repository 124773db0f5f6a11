import Backrun.Asset.Coin
import Mathlib.Algebra.GroupWithZero.Nat
import Mathlib.Data.List.Basic

/-!
# Totals by denomination

How much of a denomination there is in a list of coins, as a number: totals of lists that come
one after the other add up, and where each denomination comes once, its only coin is the total.
-/

namespace Backrun

namespace Coin

/-- How much of a denomination a coin is. -/
def amountIn (d : Denom) (c : Coin) : Nat := if d = c.denom then c.amount.toNat else 0

/-- How much of a denomination there is in a list of coins. -/
def totalIn (d : Denom) (coins : List Coin) : Nat := (coins.map (amountIn d)).sum

variable {d : Denom} {c : Coin} {coins : List Coin}

theorem amountIn_self (c : Coin) : amountIn c.denom c = c.amount.toNat := if_pos rfl

theorem amountIn_of_ne (h : d ≠ c.denom) : amountIn d c = 0 := if_neg h

@[simp]
theorem totalIn_nil : totalIn d [] = 0 := rfl

@[simp]
theorem totalIn_cons : totalIn d (c :: coins) = amountIn d c + totalIn d coins := by
  rw [totalIn, List.map_cons, List.sum_cons, totalIn]

@[simp]
theorem totalIn_append {others : List Coin} :
    totalIn d (coins ++ others) = totalIn d coins + totalIn d others := by
  rw [totalIn, List.map_append, List.sum_append, totalIn, totalIn]

/-- Coins of other denominations do not count. -/
theorem totalIn_eq_zero (h : ∀ c ∈ coins, c.denom ≠ d) : totalIn d coins = 0 := by
  induction coins with
  | nil => rfl
  | cons c coins ih =>
      rw [totalIn_cons, amountIn_of_ne (h c List.mem_cons_self).symm,
        ih fun c' hc' => h c' (List.mem_cons_of_mem c hc')]

/-- Where each denomination comes once, the only coin of one is its total. -/
theorem totalIn_of_mem (hnodup : (coins.map Coin.denom).Nodup) (hc : c ∈ coins) :
    totalIn c.denom coins = c.amount.toNat := by
  induction coins with
  | nil => exact absurd hc List.not_mem_nil
  | cons first rest ih =>
      rw [List.map_cons, List.nodup_cons] at hnodup
      obtain ⟨hfirst, hrest⟩ := hnodup
      rw [totalIn_cons]
      rcases List.mem_cons.1 hc with rfl | hc
      · rw [amountIn_self, totalIn_eq_zero fun c' hc' heq => hfirst ?_]
        · rfl
        · exact heq ▸ List.mem_map_of_mem hc'
      · have hne : c.denom ≠ first.denom := fun heq => hfirst (heq ▸ List.mem_map_of_mem hc)
        rw [amountIn_of_ne hne, ih hrest hc]
        exact Nat.zero_add _

/-- Coins without an amount may be left out. -/
theorem totalIn_filter_nonzero :
    totalIn d (coins.filter fun c => c.amount != 0) = totalIn d coins := by
  induction coins with
  | nil => rfl
  | cons c coins ih =>
      by_cases hzero : c.amount = 0
      · have hnothing : amountIn d c = 0 := by
          rw [amountIn, hzero]
          split <;> rfl
        rw [List.filter_cons_of_neg (by simp [hzero]), ih, totalIn_cons, hnothing, Nat.zero_add]
      · have htest : (c.amount != 0) = true := bne_iff_ne.2 hzero
        simp only [List.filter_cons, htest, if_true, totalIn_cons, ih]

end Coin

end Backrun
