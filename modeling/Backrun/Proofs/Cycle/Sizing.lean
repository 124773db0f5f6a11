import Backrun.Cycle.Sizing
import Backrun.Proofs.Store.Actions

/-!
# How a cycle is sized

The search for the best input stays between its bounds, so that the input of a sized cycle is a
multiple of the step that is neither zero nor above the largest.  A cycle has no size only if one
of its quotes is refused.
-/

namespace Backrun

namespace Route

variable {market : Market} {s : Store} {err : Error}

/-- An error that reports a quote which was refused for one of the hops. -/
def Misquotes (market : Market) (s : Store) (hops : List Hop) (err : Error) : Prop :=
  ∃ hop ∈ hops, ∃ input fault, market.quote hop input s.get = .error fault
    ∧ err = .notFound (.quote hop fault)

theorem quoteHops_error {amount : Amount} {hops : List Hop}
    (h : quoteHops market amount hops s = .error err) : Misquotes market s hops err := by
  induction hops generalizing amount with
  | nil => cases h
  | cons hop rest ih =>
      rcases Query.bind_error.1 h with hrefused | ⟨output, -, h⟩
      · obtain ⟨fault, hquote, rfl⟩ := Query.inspect_error.1 hrefused
        exact ⟨hop, List.mem_cons_self, amount, fault, hquote, rfl⟩
      · rcases Query.bind_error.1 h with hrest | ⟨_, -, h⟩
        · obtain ⟨hop', hmem, hmisquotes⟩ := ih hrest
          exact ⟨hop', List.mem_cons_of_mem hop hmem, hmisquotes⟩
        · cases h

/-- The search for the best multiple fails only where a profit is not to be had. -/
theorem narrow_error {profit : Nat → Query Amount} {rounds low high : Nat}
    (h : narrow profit rounds low high s = .error err) : ∃ n, profit n s = .error err := by
  induction rounds generalizing low high with
  | zero => cases h
  | succ rounds ih =>
      rw [narrow] at h
      split at h
      · rcases Query.bind_error.1 h with habove | ⟨above, -, h⟩
        · exact ⟨_, habove⟩
        · rcases Query.bind_error.1 h with hhere | ⟨here, -, h⟩
          · exact ⟨_, hhere⟩
          · split at h
            · exact ih h
            · exact ih h
      · cases h

/-- What the search settles on lies between its bounds. -/
theorem narrow_ok {profit : Nat → Query Amount} {rounds low high n : Nat} (hle : low ≤ high)
    (h : narrow profit rounds low high s = .ok n) : low ≤ n ∧ n ≤ high := by
  induction rounds generalizing low high with
  | zero =>
      cases h
      exact ⟨Nat.le_refl _, hle⟩
  | succ rounds ih =>
      rw [narrow] at h
      split at h
      · rename_i hlt
        obtain ⟨above, -, h⟩ := Query.bind_ok.1 h
        obtain ⟨here, -, h⟩ := Query.bind_ok.1 h
        -- Either half is a range that lies within the whole one.
        split at h
        · obtain ⟨hlow, hhigh⟩ := ih (by omega) h
          exact ⟨by omega, hhigh⟩
        · obtain ⟨hlow, hhigh⟩ := ih (by omega) h
          exact ⟨hlow, by omega⟩
      · cases h
        exact ⟨Nat.le_refl _, hle⟩

/-- The input of a sized cycle is a multiple of the step within the parameters. -/
theorem input_of_size {r : Route} {step : Amount} {params : SearchParams} {q : Quote}
    (h : r.size market step params s = .ok q) :
    ∃ multiple, 1 ≤ multiple ∧ multiple ≤ max 1 params.mostSteps.toNat
      ∧ q.input = step.times multiple := by
  obtain ⟨multiple, hmultiple, h⟩ := Query.bind_ok.1 h
  obtain ⟨hpositive, hmost⟩ := narrow_ok (Nat.le_max_left 1 _) hmultiple
  obtain ⟨outputs, -, h⟩ := Query.bind_ok.1 h
  cases h
  exact ⟨multiple, hpositive, hmost, rfl⟩

/-- A cycle has no size only if one of its quotes is refused. -/
theorem size_error {r : Route} {step : Amount} {params : SearchParams}
    (h : r.size market step params s = .error err) : Misquotes market s r.hops err := by
  have hmultiple : ∀ n, r.quoteMultiple market step n s = .error err →
      Misquotes market s r.hops err := by
    intro n hn
    rcases Query.bind_error.1 hn with houtputs | ⟨_, -, hn⟩
    · exact quoteHops_error houtputs
    · cases hn
  rcases Query.bind_error.1 h with hnarrow | ⟨multiple, -, hsized⟩
  · obtain ⟨n, hprofit⟩ := narrow_error hnarrow
    rcases Query.bind_error.1 hprofit with hn | ⟨_, -, hn⟩
    · exact hmultiple n hn
    · cases hn
  · exact hmultiple multiple hsized

end Route

end Backrun
