import Backrun.Budget.Basic
import Backrun.Proofs.Store.Actions

/-!
# What the count of points does

The two operations on the counter by their results.  A new height starts the count
anew; a debit is made exactly if it fits both ceilings, and no sum leaves its word.
-/

namespace Backrun

namespace Points

theorem toNat_minus (a b : UInt64) : (minus a b).toNat = a.toNat - b.toNat := by
  rw [minus]
  split
  · rename_i hle
    exact UInt64.toNat_sub_of_le a b hle
  · rename_i hlt
    rw [UInt64.le_iff_toNat_le] at hlt
    rw [UInt64.toNat_zero]
    omega

end Points

namespace BudgetState

variable {b : BudgetState} {points : UInt64}

theorem toNat_remaining (b : BudgetState) :
    b.remaining.toNat = b.pointsPerBlock.toNat - b.consumed.toNat :=
  Points.toNat_minus b.pointsPerBlock b.consumed

/-- What is left of the block bounds the debited counter by the ceiling. -/
theorem after_le_ceiling (hconsumed : b.consumed ≤ b.pointsPerBlock)
    (hfits : points ≤ b.remaining) :
    (b.after points).consumed.toNat = b.consumed.toNat + points.toNat
      ∧ (b.after points).consumed ≤ b.pointsPerBlock := by
  have hleft := toNat_remaining b
  have hword := b.pointsPerBlock.toNat_lt
  rw [UInt64.le_iff_toNat_le] at hconsumed hfits
  -- The sum is at most the ceiling, itself a word, so the addition does not wrap around.
  have hsum : (b.consumed + points).toNat = b.consumed.toNat + points.toNat := by
    rw [UInt64.toNat_add, Nat.mod_eq_of_lt]
    omega
  refine ⟨hsum, ?_⟩
  rw [UInt64.le_iff_toNat_le]
  show (b.consumed + points).toNat ≤ _
  omega

end BudgetState

namespace Budget

variable {s t : Store}

/-- The store with the count started anew at a height. -/
def renewed (height : UInt64) (s : Store) : Store :=
  s.set Key.pointCounter (Codec.encode (⟨0, height⟩ : PointCounter))

/-- The count starts anew exactly at a height above the recorded one. -/
theorem perform_beginBlock {c : PointCounter} (h : counter s = .ok c) (height : UInt64) :
    (beginBlock height).perform s
      = if height ≤ c.height then (.ok false, s) else (.ok true, renewed height s) := by
  rw [beginBlock, Action.perform_query_bind_of_ok h]
  split <;> rfl

theorem perform_beginBlock_of_error {e : Error} (h : counter s = .error e) (height : UInt64) :
    (beginBlock height).perform s = (.error e, s) :=
  Action.perform_bind_of_error (by rw [Action.perform_liftQuery, h]) _

theorem state_ok {b : BudgetState} :
    state s = .ok b ↔ ∃ config counted, storedConfig s = .ok config ∧ counter s = .ok counted
      ∧ b = ⟨config.pointsPerTx, config.pointsPerBlock, counted.consumed, counted.height⟩ := by
  rw [state, Query.bind_ok]
  constructor
  · rintro ⟨config, hconfig, h⟩
    obtain ⟨counted, hcounted, hb⟩ := Query.bind_ok.1 h
    exact ⟨config, counted, hconfig, hcounted, (Except.ok.inj hb).symm⟩
  · rintro ⟨config, counted, hconfig, hcounted, rfl⟩
    exact ⟨config, hconfig, Query.bind_ok.2 ⟨counted, hcounted, rfl⟩⟩

/-- The budget depends on two records. -/
theorem state_congr {b : BudgetState} (h : state s = .ok b)
    (hconfig : t.get Key.config = s.get Key.config)
    (hcounter : t.get Key.pointCounter = s.get Key.pointCounter) : state t = .ok b := by
  obtain ⟨config, counted, hstored, hcounted, rfl⟩ := state_ok.1 h
  exact state_ok.2 ⟨config, counted, (Query.load_congr hconfig _).trans hstored,
    (Query.load_congr hcounter _).trans hcounted, rfl⟩

/-- A debit is made exactly if one transaction may still spend it. -/
theorem tryConsume_ok {points : UInt64} {u : Unit} :
    (tryConsume points).perform s = (.ok u, t)
      ↔ ∃ b, state s = .ok b ∧ points ≤ b.pointsPerTx ∧ points ≤ b.remaining
        ∧ t = s.set Key.pointCounter (Codec.encode (b.after points)) := by
  rw [tryConsume, Action.perform_query_bind_ok]
  constructor
  · rintro ⟨b, hb, h⟩
    split at h
    · simp at h
    · rename_i hfits
      rw [not_or, UInt64.not_lt, UInt64.not_lt] at hfits
      exact ⟨b, hb, hfits.1, hfits.2, (congrArg Prod.snd h).symm⟩
  · rintro ⟨b, hb, htx, hblock, rfl⟩
    refine ⟨b, hb, ?_⟩
    rw [if_neg (not_or.2 ⟨UInt64.not_lt.2 htx, UInt64.not_lt.2 hblock⟩)]
    rfl

theorem local_tryConsume (points : UInt64) : (tryConsume points).Local := by
  refine Action.Local.bind (Action.Local.query state) fun b => ?_
  dsimp only
  split
  · exact Action.Local.bind (Action.Local.throw _) fun _ => Action.Local.save _ _
  · exact Action.Local.save _ _

end Budget

end Backrun
