import Backrun.Proofs.Config.Valid
import Backrun.Proofs.Registry.Bases
import Backrun.Proofs.Route.Cycles

/-!
# Valid genesis documents

What the check of a document accepts, in one structure: parts that may be stored as they
stand, no two of which share a key, and amounts that are covered.
-/

namespace Backrun.Genesis

/-- A document that can be stored as it stands. -/
structure Valid (g : Genesis) : Prop where
  config : g.config.validate = .ok ()
  bases : BaseDenom.Sound g.bases
  routes : ∀ entry ∈ g.routes, entry.Admissible g.config.search.mostHops
  /-- No pair is named twice. -/
  pairs : (g.routes.map PairRoutes.pair).Nodup
  pools : ∀ e ∈ g.pools, e.base ≠ e.counter
  /-- No base and counter are named together twice. -/
  poolPairs : (g.pools.map fun e => (e.base, e.counter)).Nodup
  fees : (g.fees.map Coin.denom).Nodup
  profits : (g.profits.map Coin.denom).Nodup
  /-- Fees are part of what was earned. -/
  earned : ∀ c ∈ g.fees, c.amount ≤ g.booked c.denom
  /-- The current block has not spent more than it may. -/
  consumed : g.counter.consumed ≤ g.config.pointsPerBlock

theorem validatePairs_ok {mostHops : UInt64} {seen : List DenomPair} {entries : List PairRoutes} :
    validatePairs mostHops seen entries = .ok ()
      ↔ Verdict.Unseen PairRoutes.pair seen entries
        ∧ ∀ entry ∈ entries, entry.Admissible mostHops := by
  induction entries generalizing seen with
  | nil => exact ⟨fun _ => ⟨Verdict.unseen_nil _ _, nofun⟩, fun _ => rfl⟩
  | cons entry rest ih =>
      rw [validatePairs, Verdict.unseen_cons, List.forall_mem_cons]
      simp only [Verdict.throw_bind, Verdict.throw_else_ok, Verdict.then_ok,
        PairRoutes.validateRoutes_ok, ih, ne_eq, Decidable.not_not, List.isEmpty_iff]
      constructor
      · rintro ⟨hcanonical, hseen, hnonempty, hproper, hroutes, hunseen, hrest⟩
        exact ⟨⟨hseen, hunseen⟩, ⟨hcanonical, hproper, hnonempty, fun r hr => (hroutes r hr).1,
          fun r hr => (hroutes r hr).2⟩, hrest⟩
      · rintro ⟨⟨hseen, hunseen⟩, hentry, hrest⟩
        exact ⟨hentry.canonical, hseen, hentry.nonempty, hentry.proper,
          fun r hr => ⟨hentry.cycles r hr, hentry.touching r hr⟩, hunseen, hrest⟩

theorem validatePools_ok {seen : List (Denom × Denom)} {entries : List PoolEntry} :
    validatePools seen entries = .ok ()
      ↔ Verdict.Unseen (fun e => (e.base, e.counter)) seen entries
        ∧ ∀ e ∈ entries, e.base ≠ e.counter := by
  induction entries generalizing seen with
  | nil => exact ⟨fun _ => ⟨Verdict.unseen_nil _ _, nofun⟩, fun _ => rfl⟩
  | cons e rest ih =>
      rw [validatePools, Verdict.unseen_cons, List.forall_mem_cons, Verdict.reject_ok, ih, not_or]
      constructor
      · rintro ⟨⟨hproper, hseen⟩, hunseen, hrest⟩
        exact ⟨⟨hseen, hunseen⟩, hproper, hrest⟩
      · rintro ⟨⟨hseen, hunseen⟩, hproper, hrest⟩
        exact ⟨⟨hproper, hseen⟩, hunseen, hrest⟩

theorem repeated?_eq_none {seen : List Denom} {coins : List Coin} :
    repeated? seen coins = none ↔ Verdict.Unseen Coin.denom seen coins := by
  induction coins generalizing seen with
  | nil => exact ⟨fun _ => Verdict.unseen_nil _ _, fun _ => rfl⟩
  | cons c rest ih =>
      rw [repeated?, Verdict.unseen_cons, ← ih]
      by_cases hseen : c.denom ∈ seen <;> simp [hseen]

theorem validateLedger_ok {g : Genesis} :
    g.validateLedger = .ok () ↔ (g.fees.map Coin.denom).Nodup ∧ (g.profits.map Coin.denom).Nodup
      ∧ ∀ c ∈ g.fees, c.amount ≤ g.booked c.denom := by
  have hfees : repeated? [] g.fees = none ↔ (g.fees.map Coin.denom).Nodup :=
    repeated?_eq_none.trans Verdict.unseen_nothing
  have hprofits : repeated? [] g.profits = none ↔ (g.profits.map Coin.denom).Nodup :=
    repeated?_eq_none.trans Verdict.unseen_nothing
  have hearned : (g.fees.find? fun c => g.booked c.denom < c.amount) = none
      ↔ ∀ c ∈ g.fees, c.amount ≤ g.booked c.denom := by
    simp [List.find?_eq_none]
  rw [← hfees, ← hprofits, ← hearned, validateLedger]
  cases repeated? [] g.fees with
  | some d => simp
  | none =>
      cases repeated? [] g.profits with
      | some d => simp
      | none => cases g.fees.find? fun c => g.booked c.denom < c.amount <;> simp

/-- The check accepts the valid documents and nothing else. -/
theorem validate_ok {g : Genesis} : g.validate = .ok () ↔ g.Valid := by
  have hbases : g.bases = [] ∨ BaseDenom.validateList g.bases = .ok () ↔ BaseDenom.Sound g.bases := by
    rw [BaseDenom.validateList_ok]
    constructor
    · rintro (hnil | ⟨-, hsound⟩)
      · rw [hnil]
        exact ⟨List.nodup_nil, nofun⟩
      · exact hsound
    · intro hsound
      by_cases hnil : g.bases = []
      · exact .inl hnil
      · exact .inr ⟨hnil, hsound⟩
  have hif : ∀ rest : Except Invalid Unit,
      (if ¬ g.bases.isEmpty = true then
        (BaseDenom.validateList g.bases).mapError Invalid.registry >>= fun _ => rest
      else rest) = .ok () ↔ BaseDenom.Sound g.bases ∧ rest = .ok () := by
    intro rest
    rw [← hbases]
    by_cases hnil : g.bases = []
    · simp [hnil]
    · rw [if_pos (by simpa using hnil), Verdict.then_ok, Verdict.mapError_ok]
      simp [hnil]
  rw [validate]
  simp only [Verdict.then_ok, Verdict.mapError_ok, hif, validatePairs_ok, validatePools_ok,
    validateLedger_ok, Verdict.throw_else_ok, Verdict.unseen_nothing, UInt64.not_lt]
  constructor
  · rintro ⟨hconfig, hbases, ⟨hpairs, hroutes⟩, ⟨hpoolPairs, hpools⟩,
      ⟨hfees, hprofits, hearned⟩, hconsumed, -⟩
    exact ⟨hconfig, hbases, hroutes, hpairs, hpools, hpoolPairs, hfees, hprofits, hearned, hconsumed⟩
  · intro h
    exact ⟨h.config, h.bases, ⟨h.pairs, h.routes⟩, ⟨h.poolPairs, h.pools⟩,
      ⟨h.fees, h.profits, h.earned⟩, h.consumed, rfl⟩

end Backrun.Genesis
