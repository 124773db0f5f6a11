import Backrun.Config.Stored
import Backrun.Proofs.Codec.Settled
import Backrun.Proofs.Store.Actions
import Backrun.Proofs.Verdict

/-!
# Valid configurations

A valid configuration keeps the ceiling for transactions within the one for blocks and is
read back from its stored bytes: its shares have few places, so none of them is a
zero with a sign.
-/

namespace Backrun

/-! ## Shares and schedules -/

namespace FeeTier

/-- An accepted share has at most four places. -/
theorem places_le_of_valid {t : FeeTier} (h : t.validateShare = .ok ()) : t.share.places ≤ 4 := by
  simp only [validateShare, Verdict.reject_ok] at h
  exact Nat.not_lt.1 h.2.1

/-- An accepted share has no sign on its zero. -/
theorem settled_of_valid {t : FeeTier} (h : t.validateShare = .ok ()) : t.settled = t := by
  have hplaces := places_le_of_valid h
  exact settled_eq_self.2 (Decimal.not_signedZero_of_places (by omega))

end FeeTier

namespace FeeSchedule

/-- A tier is accepted with a bound above the one before, or without a bound as the last one. -/
theorem validateTiers_cons_ok {previous : Option UInt64} {tier : FeeTier} {rest : List FeeTier} :
    validateTiers previous (tier :: rest) = .ok () ↔ tier.validateShare = .ok ()
      ∧ ((∃ day, tier.untilDay = some day ∧ (∀ p ∈ previous, p < day)
          ∧ validateTiers (some day) rest = .ok ())
        ∨ tier.untilDay = none ∧ rest = []) := by
  rw [validateTiers]
  cases hshare : tier.validateShare with
  | error f => simp
  | ok =>
      cases hday : tier.untilDay with
      | some day => simp [Option.any_eq_false]
      | none => simp

theorem validateShare_of_tiers {previous : Option UInt64} {tiers : List FeeTier}
    (h : validateTiers previous tiers = .ok ()) : ∀ t ∈ tiers, t.validateShare = .ok () := by
  induction tiers generalizing previous with
  | nil => exact fun t ht => absurd ht List.not_mem_nil
  | cons tier rest ih =>
      obtain ⟨hshare, ⟨day, -, -, hrest⟩ | ⟨-, rfl⟩⟩ := validateTiers_cons_ok.1 h
      · exact List.forall_mem_cons.2 ⟨hshare, ih hrest⟩
      · exact List.forall_mem_singleton.2 hshare

/-- Every share of an accepted schedule is accepted. -/
theorem validateShare_of_valid {s : FeeSchedule} (h : s.validate = .ok ()) :
    ∀ t ∈ s.tiers, t.validateShare = .ok () := by
  rw [validate] at h
  split at h
  · simp at h
  · rw [Verdict.reject_ok] at h
    exact validateShare_of_tiers h.2

theorem settled_of_valid {s : FeeSchedule} (h : s.validate = .ok ()) : s.settled = s :=
  settled_eq_self.2 fun t ht =>
    FeeTier.settled_eq_self.1 (FeeTier.settled_of_valid (validateShare_of_valid h t ht))

end FeeSchedule

/-! ## The configuration -/

namespace EngineConfig

variable {c : EngineConfig}

/-- What the check of a configuration accepts, part by part. -/
theorem validate_ok :
    c.validate = .ok () ↔ validatePointsPerTx c.pointsPerTx = .ok ()
      ∧ validatePointsPerBlock c.pointsPerBlock = .ok () ∧ c.pointsPerTx ≤ c.pointsPerBlock
      ∧ c.weights.validate = .ok () ∧ c.search.validate = .ok () ∧ c.schedule.validate = .ok () := by
  rw [validate]
  simp [UInt64.not_lt]

/-- What a transaction may spend under a valid configuration. -/
theorem pointsPerTx_le (h : c.validate = .ok ()) : c.pointsPerTx ≤ greatestPointsPerTx := by
  obtain ⟨htx, -⟩ := validate_ok.1 h
  rw [validatePointsPerTx, Verdict.reject_ok, not_or] at htx
  exact UInt64.not_lt.1 htx.1.2

/-- A valid configuration allows at least one step of input. -/
theorem one_le_mostSteps (h : c.validate = .ok ()) : 1 ≤ c.search.mostSteps.toNat := by
  obtain ⟨-, -, -, -, hsearch, -⟩ := validate_ok.1 h
  simp only [SearchParams.validate, Verdict.reject_ok] at hsearch
  obtain ⟨-, -, -, hsteps, -⟩ := hsearch
  exact Nat.one_le_iff_ne_zero.2 fun hzero => hsteps (UInt64.toNat_inj.1 hzero)

theorem settled_of_valid (h : c.validate = .ok ()) : c.settled = c := by
  obtain ⟨-, -, -, -, -, hschedule⟩ := validate_ok.1 h
  exact settled_eq_self.2 (FeeSchedule.settled_of_valid hschedule)

theorem faithful (h : c.validate = .ok ()) : Codec.Faithful c :=
  settles.faithful (settled_of_valid h)

end EngineConfig

/-! ## Storing it -/

section Stored

variable {s t : Store}

/-- A configuration is stored exactly if it is valid. -/
theorem perform_saveConfig_ok {c : EngineConfig} {u : Unit} :
    (saveConfig c).perform s = (.ok u, t)
      ↔ c.validate = .ok () ∧ t = s.set Key.config (Codec.encode c) := by
  rw [saveConfig, Action.perform_verdict_bind_ok, ConfigFault.raise]
  constructor
  · rintro ⟨_, hvalid, h⟩
    exact ⟨Verdict.mapError_ok.1 hvalid, (congrArg Prod.snd h).symm⟩
  · rintro ⟨hvalid, rfl⟩
    exact ⟨(), Verdict.mapError_ok.2 hvalid, rfl⟩

theorem clean_saveConfig (c : EngineConfig) : (saveConfig c).Clean :=
  Action.Clean.verdict_bind fun _ => (Action.Total.update _).clean

end Stored

end Backrun
