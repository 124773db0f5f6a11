import Backrun.Budget.Cost
import Backrun.Proofs.Store.Actions
import Mathlib.Algebra.GroupWithZero.Nat

/-!
# What a cycle costs

A cycle costs its overhead and the weights of its hops.  The sum stops at the end of the word,
which is far above what one transaction may spend, so that a cost within a budget is the sum
itself.  There is no cost where a hop cannot be weighed.
-/

namespace Backrun

namespace Points

/-- A sum of points is the sum of the numbers, or the largest word. -/
theorem toNat_plus (a b : UInt64) :
    (plus a b).toNat = min (a.toNat + b.toNat) (UInt64.size - 1) := by
  rw [plus]
  split
  · rename_i hfits
    rw [UInt64.toNat_add, Nat.mod_eq_of_lt hfits]
    omega
  · rename_i hfull
    rw [UInt64.toNat_ofNat_of_lt' (by decide)]
    omega

end Points

namespace Budget

variable {config : EngineConfig} {market : Market} {s : Store}

/-- A hop that cannot be weighed. -/
inductive Unweighed (config : EngineConfig) (market : Market) (s : Store) (hop : Hop) : Prop
  | unknown {fault : Fault} (hpool : market.poolType hop.poolId s.get = .error fault)
  | weightless {family : PoolType} (hpool : market.poolType hop.poolId s.get = .ok family)
      (hweight : config.weights.weight? family = none)

/-- A hop has a weight, that of its pool's family. -/
def Weighs (config : EngineConfig) (market : Market) (s : Store) (hop : Hop) (points : UInt64) :
    Prop :=
  ∃ family, market.poolType hop.poolId s.get = .ok family
    ∧ config.weights.weight? family = some points

/-- A hop costs its weight. -/
theorem hopCost_ok {hop : Hop} {points : UInt64} :
    hopCost config market hop s = .ok points ↔ Weighs config market s hop points := by
  rw [hopCost, Query.bind_ok]
  refine exists_congr fun family => and_congr Query.inspect_ok ?_
  cases config.weights.weight? family <;> simp

theorem hopCost_error {hop : Hop} :
    (∃ err, hopCost config market hop s = .error err) ↔ Unweighed config market s hop := by
  constructor
  · rintro ⟨err, h⟩
    rcases Query.bind_error.1 h with hrefused | ⟨family, hfamily, hnone⟩
    · obtain ⟨fault, hpool, -⟩ := Query.inspect_error.1 hrefused
      exact .unknown hpool
    · refine .weightless (Query.inspect_ok.1 hfamily) ?_
      cases hweight : config.weights.weight? family with
      | none => rfl
      | some points =>
          rw [hweight] at hnone
          cases hnone
  · intro h
    cases h with
    | unknown hpool => exact ⟨_, Query.bind_error.2 (.inl (Query.inspect_error.2 ⟨_, hpool, rfl⟩))⟩
    | @weightless family hpool hweight =>
        refine ⟨.notFound (.weight family),
          Query.bind_error.2 (.inr ⟨family, Query.inspect_ok.2 hpool, ?_⟩)⟩
        rw [hweight]
        rfl

/-- Hops cost the sum of their weights on top of a cost, or the largest word. -/
theorem hopsCost_ok {before total : UInt64} {hops : List Hop}
    (h : hopsCost config market before hops s = .ok total) :
    ∃ weights : List UInt64, List.Forall₂ (Weighs config market s) hops weights
      ∧ total.toNat = min (before.toNat + (weights.map UInt64.toNat).sum) (UInt64.size - 1) := by
  induction hops generalizing before with
  | nil =>
      have hword := before.toNat_lt_size
      cases h
      refine ⟨[], .nil, ?_⟩
      rw [List.map_nil, List.sum_nil]
      omega
  | cons hop rest ih =>
      obtain ⟨points, hpoints, hrest⟩ := Query.bind_ok.1 h
      obtain ⟨weights, hweights, htotal⟩ := ih hrest
      refine ⟨points :: weights, .cons (hopCost_ok.1 hpoints) hweights, ?_⟩
      rw [htotal, Points.toNat_plus, List.map_cons, List.sum_cons]
      omega

/-- Hops cost something unless one of them cannot be weighed. -/
theorem hopsCost_error {before : UInt64} {hops : List Hop} :
    (∃ err, hopsCost config market before hops s = .error err)
      ↔ ∃ hop ∈ hops, Unweighed config market s hop := by
  induction hops generalizing before with
  | nil => exact ⟨nofun, nofun⟩
  | cons hop rest ih =>
      rw [List.exists_mem_cons_iff, ← hopCost_error]
      constructor
      · rintro ⟨err, h⟩
        rcases Query.bind_error.1 h with hfirst | ⟨points, -, hrest⟩
        · exact .inl ⟨err, hfirst⟩
        · exact .inr (ih.1 ⟨err, hrest⟩)
      · intro h
        cases hfirst : hopCost config market hop s with
        | error err => exact ⟨err, Query.bind_error.2 (.inl hfirst)⟩
        | ok points =>
            obtain ⟨err, hrest⟩ := ih.2 (h.resolve_left fun ⟨err, herr⟩ =>
              absurd (hfirst.symm.trans herr) nofun)
            exact ⟨err, Query.bind_error.2 (.inr ⟨points, hfirst, hrest⟩)⟩

/-- A cost below the largest word is the overhead with the weights of all hops. -/
theorem cost_ok {r : Route} {total : UInt64} (h : cost config market r s = .ok total)
    (hless : total.toNat < UInt64.size - 1) :
    ∃ weights : List UInt64, List.Forall₂ (Weighs config market s) r.hops weights
      ∧ total.toNat = config.search.overhead.toNat + (weights.map UInt64.toNat).sum := by
  obtain ⟨weights, hweights, htotal⟩ := hopsCost_ok h
  exact ⟨weights, hweights, by omega⟩

end Budget

end Backrun
