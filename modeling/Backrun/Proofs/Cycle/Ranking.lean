import Backrun.Cycle.Candidate

/-!
# The best candidate

Candidates are ranked by profit, then by the position of the route, then by the position of
the base denomination.  `Precedes` is that order, which is linear but for candidates that
agree in all three.  The selected candidate earns something, and no candidate precedes it.
-/

namespace Backrun.Candidate

variable {c d e : Candidate} {cs : List Candidate}

/-- More profit, or the same profit from an earlier route, or from the same position of route
with an earlier base denomination. -/
def Precedes (c d : Candidate) : Prop :=
  d.quote.profit.toNat < c.quote.profit.toNat
    ∨ d.quote.profit.toNat = c.quote.profit.toNat
      ∧ (c.routeIndex < d.routeIndex
        ∨ c.routeIndex = d.routeIndex ∧ c.basePosition < d.basePosition)

theorem outranks_iff : c.outranks d = true ↔ c.Precedes d := by
  simp only [outranks, Precedes, Bool.or_eq_true, Bool.and_eq_true, decide_eq_true_eq, beq_iff_eq,
    BitVec.lt_def, BitVec.toNat_eq]

theorem Precedes.asymm (h : c.Precedes d) : ¬ d.Precedes c := by
  rw [Precedes] at h ⊢
  omega

/-- What does not precede a candidate does not precede one behind it either. -/
theorem not_precedes_trans (hcd : ¬ c.Precedes d) (hde : ¬ d.Precedes e) : ¬ c.Precedes e := by
  rw [Precedes] at hcd hde ⊢
  omega

/-- Of two candidates one precedes the other, unless they agree in both positions. -/
theorem precedes_of_not (h : ¬ d.Precedes c)
    (hne : c.routeIndex ≠ d.routeIndex ∨ c.basePosition ≠ d.basePosition) : c.Precedes d := by
  rw [Precedes] at h ⊢
  omega

/-! ## Selection -/

theorem best?_eq_none : best? cs = none ↔ cs = [] := by
  cases cs with
  | nil => exact ⟨fun _ => rfl, fun _ => rfl⟩
  | cons c rest =>
      rw [best?]
      split
      · split <;> simp
      · simp

/-- The best candidate is one of the list, and none of the list precedes it. -/
theorem best?_eq_some (h : best? cs = some c) : c ∈ cs ∧ ∀ d ∈ cs, ¬ d.Precedes c := by
  induction cs generalizing c with
  | nil => exact absurd h (by simp [best?])
  | cons first rest ih =>
      rw [best?] at h
      -- The first candidate is compared with the best of the others.
      cases hrest : best? rest with
      | none =>
          rw [hrest] at h
          have hnil : rest = [] := best?_eq_none.1 hrest
          rw [← Option.some.inj h, hnil]
          refine ⟨List.mem_cons_self, fun d hd => ?_⟩
          rw [List.mem_singleton.1 hd]
          exact fun hself => hself.asymm hself
      | some last =>
          obtain ⟨hlast, hbest⟩ := ih hrest
          rw [hrest] at h
          dsimp only at h
          split at h
          · rename_i houtranks
            rw [← Option.some.inj h]
            refine ⟨List.mem_cons_of_mem first hlast, fun d hd => ?_⟩
            rcases List.mem_cons.1 hd with rfl | hd
            · exact (outranks_iff.1 houtranks).asymm
            · exact hbest d hd
          · rename_i houtranks
            rw [← Option.some.inj h]
            refine ⟨List.mem_cons_self, fun d hd => ?_⟩
            rcases List.mem_cons.1 hd with rfl | hd
            · exact fun hself => hself.asymm hself
            · exact not_precedes_trans (hbest d hd) fun hfirst => houtranks (outranks_iff.2 hfirst)

/-- Nothing is selected exactly if nothing earns. -/
theorem select_eq_none : select cs = none ↔ ∀ c ∈ cs, c.quote.profit = 0 := by
  rw [select, best?_eq_none, List.filter_eq_nil_iff]
  simp

/-- The selected candidate earns something, and none of the list precedes it. -/
theorem select_eq_some (h : select cs = some c) :
    c ∈ cs ∧ c.quote.profit ≠ 0 ∧ ∀ d ∈ cs, ¬ d.Precedes c := by
  obtain ⟨hmem, hbest⟩ := best?_eq_some h
  obtain ⟨hmem, hearns⟩ := List.mem_filter.1 hmem
  have hearns : c.quote.profit ≠ 0 := by simpa using hearns
  refine ⟨hmem, hearns, fun d hd => ?_⟩
  -- What earns nothing has not been considered, but it does not precede what earns.
  by_cases hzero : d.quote.profit = 0
  · have hpositive : c.quote.profit.toNat ≠ 0 := fun h => hearns (BitVec.eq_of_toNat_eq h)
    have hnone : d.quote.profit.toNat = 0 := congrArg BitVec.toNat hzero
    rw [Precedes]
    omega
  · exact hbest d (List.mem_filter.2 ⟨hd, by simpa using hzero⟩)

end Backrun.Candidate
