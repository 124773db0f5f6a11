import Backrun.Budget.Ceilings
import Backrun.Proofs.Budget.Budgeted

/-!
# Changing the configuration and the ceilings

What a change of the stored configuration amounts to, and what each setter of the budget
does when it succeeds.  A setter that fails leaves the store as it was, since everything is
checked before anything is written.
-/

namespace Backrun

variable {s t : Store} {u : Unit}

/-- The stored configuration has been changed by a function, and the result is valid. -/
def Reconfigured (f : EngineConfig → EngineConfig) (s t : Store) : Prop :=
  ∃ config, storedConfig s = .ok config ∧ (f config).validate = .ok ()
    ∧ t = s.set Key.config (Codec.encode (f config))

namespace PointCounter

/-- What a block counts as spent under another ceiling. -/
def clampedTo (counted : PointCounter) (points : UInt64) : PointCounter :=
  if points < counted.consumed then { counted with consumed := points } else counted

theorem toNat_clampedTo (counted : PointCounter) (points : UInt64) :
    (counted.clampedTo points).consumed.toNat = min counted.consumed.toNat points.toNat := by
  rw [clampedTo]
  split
  · rename_i h
    rw [UInt64.lt_iff_toNat_lt] at h
    exact (Nat.min_eq_right (Nat.le_of_lt h)).symm
  · rename_i h
    rw [UInt64.lt_iff_toNat_lt] at h
    exact (Nat.min_eq_left (Nat.not_lt.1 h)).symm

theorem height_clampedTo (counted : PointCounter) (points : UInt64) :
    (counted.clampedTo points).height = counted.height := by
  rw [clampedTo]
  split <;> rfl

end PointCounter

/-- The stored ceiling for blocks is another one, and the counter has been clamped to it. -/
def Recapped (points : UInt64) (s t : Store) : Prop :=
  ∃ config counted, storedConfig s = .ok config ∧ Budget.counter s = .ok counted
    ∧ ({ config with pointsPerBlock := points } : EngineConfig).validate = .ok ()
    ∧ t = (if points < counted.consumed then
        (s.set Key.config (Codec.encode { config with pointsPerBlock := points })).set
          Key.pointCounter (Codec.encode (counted.clampedTo points))
      else s.set Key.config (Codec.encode { config with pointsPerBlock := points }))

/-- Only the configuration and the counter change. -/
theorem Recapped.frame {points : UInt64} (h : Recapped points s t) {k : Bytes}
    (hconfig : Key.kind k ≠ some 0x04) (hcounter : Key.kind k ≠ some 0x05) : t.get k = s.get k := by
  obtain ⟨config, counted, -, -, -, rfl⟩ := h
  split
  · rw [Store.get_set_of_ne _ _ (Key.ne_of_kind hcounter),
      Store.get_set_of_ne s _ (Key.ne_of_kind hconfig)]
  · exact Store.get_set_of_ne s _ (Key.ne_of_kind hconfig)

namespace Budget

theorem setPointsPerTx_ok {points : UInt64}
    (h : (setPointsPerTx points).perform s = (.ok u, t)) :
    Reconfigured (fun c => { c with pointsPerTx := points }) s t := by
  rw [setPointsPerTx, Action.perform_verdict_bind_ok] at h
  obtain ⟨_, -, h⟩ := h
  obtain ⟨config, hconfig, h⟩ := Action.perform_query_bind_ok.1 h
  dsimp only at h
  split at h
  · simp at h
  · obtain ⟨hvalid, rfl⟩ := perform_saveConfig_ok.1 h
    exact ⟨config, hconfig, hvalid, rfl⟩

theorem setWeights_ok {weights : PoolWeights}
    (h : (setWeights weights).perform s = (.ok u, t)) :
    Reconfigured (fun c => { c with weights := c.weights.merge weights }) s t := by
  rw [setWeights, Action.perform_verdict_bind_ok] at h
  obtain ⟨_, -, h⟩ := h
  obtain ⟨config, hconfig, h⟩ := Action.perform_query_bind_ok.1 h
  obtain ⟨hvalid, rfl⟩ := perform_saveConfig_ok.1 h
  exact ⟨config, hconfig, hvalid, rfl⟩

/-- The ceiling for blocks is set exactly if the result is valid. -/
theorem setPointsPerBlock_ok {points : UInt64} :
    (setPointsPerBlock points).perform s = (.ok u, t) ↔ Recapped points s t := by
  rw [setPointsPerBlock, Action.perform_verdict_bind_ok]
  constructor
  · rintro ⟨_, -, h⟩
    obtain ⟨config, hconfig, h⟩ := Action.perform_query_bind_ok.1 h
    dsimp only at h
    split at h
    · simp at h
    · obtain ⟨counted, hcounted, h⟩ := Action.perform_query_bind_ok.1 h
      obtain ⟨_, mid, hsave, h⟩ := Action.perform_bind_ok.1 h
      obtain ⟨hvalid, rfl⟩ := perform_saveConfig_ok.1 hsave
      refine ⟨config, counted, hconfig, hcounted, hvalid, ?_⟩
      -- The counter is written again only where it exceeds the ceiling.
      split at h
      · rename_i hlower
        rw [if_pos hlower, PointCounter.clampedTo, if_pos hlower]
        exact (congrArg Prod.snd h).symm
      · rename_i hlower
        rw [if_neg hlower]
        exact (congrArg Prod.snd h).symm
  · rintro ⟨config, counted, hconfig, hcounted, hvalid, rfl⟩
    obtain ⟨-, hpoints, hceilings, -⟩ := EngineConfig.validate_ok.1 hvalid
    refine ⟨(), Verdict.mapError_ok.2 hpoints, Action.perform_query_bind_ok.2 ⟨config, hconfig, ?_⟩⟩
    dsimp only
    rw [if_neg (UInt64.not_lt.2 hceilings), Action.perform_query_bind_of_ok hcounted,
      Action.perform_bind_of_ok (perform_saveConfig_ok (u := ()).2 ⟨hvalid, rfl⟩)]
    by_cases hlower : points < counted.consumed
    · rw [if_pos hlower, if_pos hlower, PointCounter.clampedTo, if_pos hlower]
      rfl
    · rw [if_neg hlower, if_neg hlower]
      rfl

theorem clean_setPointsPerTx (points : UInt64) : (setPointsPerTx points).Clean := by
  refine Action.Clean.verdict_bind fun _ => Action.Clean.query_bind fun config => ?_
  dsimp only
  split
  · exact Action.Clean.throw _
  · exact clean_saveConfig _

theorem clean_setWeights (weights : PoolWeights) : (setWeights weights).Clean :=
  Action.Clean.verdict_bind fun _ => Action.Clean.query_bind fun _ => clean_saveConfig _

theorem clean_setPointsPerBlock (points : UInt64) : (setPointsPerBlock points).Clean := by
  refine Action.Clean.verdict_bind fun _ => Action.Clean.query_bind fun config => ?_
  dsimp only
  split
  · exact Action.Clean.throw _
  · refine Action.Clean.query_bind fun counted => Action.Clean.bind_total (clean_saveConfig _) ?_
    intro _
    split
    · exact Action.Total.update _
    · exact Action.Total.pure ()

end Budget

end Backrun
