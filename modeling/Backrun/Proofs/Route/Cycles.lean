import Backrun.Proofs.Verdict
import Backrun.Registry.Routes
import Mathlib.Data.List.Chain

/-!
# Admissible routes

What the check of a route accepts: cycles of at least two hops and at most so many, in
which every hop changes the denomination and starts where the one before it ends.
-/

namespace Backrun

namespace Route

/-- A cycle of two to `mostHops` hops. -/
structure IsCycle (mostHops : UInt64) (r : Route) : Prop where
  atLeastTwo : 2 ≤ r.hops.length
  atMost : r.hops.length ≤ mostHops.toNat
  /-- Every hop changes the denomination. -/
  changes : ∀ h ∈ r.hops, h.denomIn ≠ h.denomOut
  /-- Each hop starts where the one before it ends. -/
  chained : r.hops.IsChain fun h h' => h.denomOut = h'.denomIn
  /-- The last hop ends where the first one starts. -/
  closed : r.finish? = r.base?

theorem firstBreak_eq_none {hops : List Hop} :
    firstBreak hops = none ↔ hops.IsChain fun h h' => h.denomOut = h'.denomIn := by
  induction hops with
  | nil => simp [firstBreak]
  | cons h rest ih =>
      cases rest with
      | nil => simp [firstBreak]
      | cons h' rest =>
          rw [firstBreak, List.isChain_cons_cons, ← ih]
          by_cases hchained : h.denomOut = h'.denomIn <;> simp [hchained]

/-- The check accepts the cycles and nothing else. -/
theorem validate_ok {mostHops : UInt64} {r : Route} :
    r.validate mostHops = .ok () ↔ r.IsCycle mostHops := by
  rw [validate, Verdict.reject_ok]
  constructor
  · rintro ⟨hlength, h⟩
    split at h
    · simp at h
    · rename_i hself
      split at h
      · simp at h
      · rename_i hbreak
        refine ⟨by omega, by omega, ?_, firstBreak_eq_none.1 hbreak, ?_⟩
        · simpa using hself
        · split at h
          · rename_i start finish hstart hfinish
            split at h
            · rename_i heq
              rw [hstart, hfinish, heq]
            · simp at h
          · simp at h
  · rintro ⟨htwo, hmost, hchanges, hchained, hclosed⟩
    refine ⟨by omega, ?_⟩
    have hself : (r.hops.find? fun h => h.denomIn == h.denomOut) = none := by
      simpa using hchanges
    -- With two hops there is a first one, and so a denomination to come back to.
    have hbase : r.base? = some (r.hops.head (List.ne_nil_of_length_pos (by omega))).denomIn := by
      rw [base?, List.head?_eq_some_head]
      rfl
    rw [hself, firstBreak_eq_none.2 hchained, hclosed, hbase]
    simp

/-! ## Cycles by their hops -/

/-- Hops that lead from one denomination to another and change it at every step. -/
inductive Leads : Denom → List Hop → Denom → Prop
  | here (d : Denom) : Leads d [] d
  | hop {h : Hop} {rest : List Hop} {finish : Denom} (changes : h.denomIn ≠ h.denomOut)
      (onwards : Leads h.denomOut rest finish) : Leads h.denomIn (h :: rest) finish

/-- Chained hops lead from the first denomination to the last one. -/
theorem leads_of_chained {h : Hop} {rest : List Hop} {finish : Denom}
    (hchanges : ∀ h' ∈ h :: rest, h'.denomIn ≠ h'.denomOut)
    (hchained : (h :: rest).IsChain fun a b => a.denomOut = b.denomIn)
    (hfinish : (h :: rest).getLast?.map Hop.denomOut = some finish) :
    Leads h.denomIn (h :: rest) finish := by
  induction rest generalizing h with
  | nil =>
      obtain rfl : h.denomOut = finish := Option.some.inj hfinish
      exact .hop (hchanges h List.mem_cons_self) (.here _)
  | cons next rest ih =>
      obtain ⟨hnext, hrest⟩ := List.isChain_cons_cons.1 hchained
      refine .hop (hchanges h List.mem_cons_self) ?_
      rw [hnext]
      refine ih (fun h' hh' => hchanges h' (List.mem_cons_of_mem h hh')) hrest ?_
      rw [List.getLast?_cons_cons] at hfinish
      exact hfinish

/-- The hops of a cycle lead from its base denomination back to it. -/
theorem IsCycle.leads {mostHops : UInt64} {r : Route} (h : r.IsCycle mostHops) :
    ∃ base, r.base? = some base ∧ Leads base r.hops base := by
  obtain ⟨hops⟩ := r
  cases hops with
  | nil => exact absurd h.atLeastTwo (by decide)
  | cons first rest =>
      refine ⟨first.denomIn, rfl, leads_of_chained h.changes h.chained ?_⟩
      exact h.closed

end Route

namespace PairRoutes

/-- What may be registered for a pair: at least one route, each of them a cycle that
trades the pair, and the pair in canonical order. -/
structure Admissible (mostHops : UInt64) (entry : PairRoutes) : Prop where
  canonical : DenomPair.canonical entry.pair.tokenA entry.pair.tokenB = entry.pair
  proper : entry.pair.tokenA ≠ entry.pair.tokenB
  nonempty : entry.routes ≠ []
  cycles : ∀ r ∈ entry.routes, r.IsCycle mostHops
  touching : ∀ r ∈ entry.routes, r.touches entry.pair.tokenA entry.pair.tokenB = true

theorem validateRoutes_ok {mostHops : UInt64} {pair : DenomPair} {routes : List Route} :
    validateRoutes mostHops pair routes = .ok ()
      ↔ ∀ r ∈ routes, r.IsCycle mostHops ∧ r.touches pair.tokenA pair.tokenB = true := by
  rw [validateRoutes, Verdict.forM_ok]
  refine forall_congr' fun r => imp_congr_right fun _ => ?_
  rw [validateRoute]
  simp [Route.validate_ok]

end PairRoutes

end Backrun
