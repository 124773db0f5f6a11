import Backrun.Governance
import Backrun.Proofs.Budget.Ceilings
import Backrun.Proofs.Registry.Registered

/-!
# What governance changes

Each change of governance by what it does when it succeeds.  A change that fails leaves the
store as it was, since everything is checked before anything is written.
-/

namespace Backrun.Governance

variable {authority caller : Account} {s t : Store} {u : Unit}

/-! ## Changing the configuration -/

theorem changeConfig_ok {f : EngineConfig → EngineConfig} :
    (changeConfig f).perform s = (.ok u, t) ↔ Reconfigured f s t := by
  rw [changeConfig, Action.perform_query_bind_ok, Reconfigured]
  simp only [perform_saveConfig_ok]

theorem clean_changeConfig (f : EngineConfig → EngineConfig) : (changeConfig f).Clean :=
  Action.Clean.query_bind fun config => clean_saveConfig (f config)

/-! ## The gated changes -/

/-- A gated change is made by those who may govern. -/
theorem authorize_bind_ok {f : Unit → Action Unit} :
    ((liftM (authorize authority caller) : Action Unit) >>= f).perform s = (.ok u, t)
      ↔ authorize authority caller s = .ok () ∧ (f ()).perform s = (.ok u, t) := by
  rw [Action.perform_query_bind_ok]
  exact ⟨fun ⟨_, hmay, h⟩ => ⟨hmay, h⟩, fun ⟨hmay, h⟩ => ⟨(), hmay, h⟩⟩

theorem setEnabled_ok {enabled : Bool}
    (h : (setEnabled authority caller enabled).perform s = (.ok u, t)) :
    authorize authority caller s = .ok () ∧ Reconfigured (fun c => { c with enabled }) s t := by
  obtain ⟨hmay, h⟩ := authorize_bind_ok.1 h
  exact ⟨hmay, changeConfig_ok.1 h⟩

theorem setPointsPerTx_ok {points : UInt64}
    (h : (setPointsPerTx authority caller points).perform s = (.ok u, t)) :
    authorize authority caller s = .ok ()
      ∧ Reconfigured (fun c => { c with pointsPerTx := points }) s t := by
  obtain ⟨hmay, h⟩ := authorize_bind_ok.1 h
  exact ⟨hmay, Budget.setPointsPerTx_ok h⟩

theorem setPointsPerBlock_ok {points : UInt64} :
    (setPointsPerBlock authority caller points).perform s = (.ok u, t)
      ↔ authorize authority caller s = .ok () ∧ Recapped points s t :=
  authorize_bind_ok.trans (and_congr_right fun _ => Budget.setPointsPerBlock_ok)

theorem setWeights_ok {weights : PoolWeights}
    (h : (setWeights authority caller weights).perform s = (.ok u, t)) :
    authorize authority caller s = .ok ()
      ∧ Reconfigured (fun c => { c with weights := c.weights.merge weights }) s t := by
  obtain ⟨hmay, h⟩ := authorize_bind_ok.1 h
  exact ⟨hmay, Budget.setWeights_ok h⟩

theorem setDeveloper_ok {developer : Account}
    (h : (setDeveloper authority caller developer).perform s = (.ok u, t)) :
    authorize authority caller s = .ok ()
      ∧ Reconfigured (fun c => { c with developer := some developer }) s t := by
  obtain ⟨hmay, h⟩ := authorize_bind_ok.1 h
  exact ⟨hmay, changeConfig_ok.1 h⟩

/-- The authority may always name the admin. -/
theorem setAdmin_ok {admin : Account}
    (h : (setAdmin authority caller admin).perform s = (.ok u, t)) :
    (caller = authority ∨ authorize authority caller s = .ok ())
      ∧ Reconfigured (fun c => { c with admin := some admin }) s t := by
  rw [setAdmin] at h
  dsimp only at h
  split at h
  · obtain ⟨hmay, h⟩ := authorize_bind_ok.1 h
    exact ⟨.inr hmay, changeConfig_ok.1 h⟩
  · rename_i hauthority
    exact ⟨.inl (Decidable.not_not.1 hauthority), changeConfig_ok.1 h⟩

theorem setRoutes_ok {a b : Denom} {routes : List Route}
    (h : (setRoutes authority caller a b routes).perform s = (.ok u, t)) :
    authorize authority caller s = .ok () ∧ ∃ config, storedConfig s = .ok config
      ∧ (Registry.setRoutes a b routes config.search.mostHops).perform s = (.ok u, t) := by
  obtain ⟨hmay, h⟩ := authorize_bind_ok.1 h
  exact ⟨hmay, Action.perform_query_bind_ok.1 h⟩

/-- The base denominations that a new list leaves out. -/
def dropped (previous bases : List BaseDenom) : List BaseDenom :=
  previous.filter fun b => (BaseDenom.position? bases b.denom).isNone

theorem setBaseDenoms_ok {bases : List BaseDenom}
    (h : (setBaseDenoms authority caller bases).perform s = (.ok u, t)) :
    authorize authority caller s = .ok () ∧ ∃ previous mid, Registry.baseDenoms s = .ok previous
      ∧ (Registry.setBaseDenoms bases).perform s = (.ok (), mid)
      ∧ ((dropped previous bases).forM fun b => Registry.clearPools b.denom).perform mid
        = (.ok u, t) := by
  obtain ⟨hmay, h⟩ := authorize_bind_ok.1 h
  obtain ⟨previous, hprevious, h⟩ := Action.perform_query_bind_ok.1 h
  obtain ⟨_, mid, hmid, h⟩ := Action.perform_bind_ok.1 h
  exact ⟨hmay, previous, mid, hprevious, hmid, h⟩

/-! ## All changes alike -/

/-- A change that governance may ask for. -/
inductive Change where
  | enabled (enabled : Bool)
  | pointsPerTx (points : UInt64)
  | pointsPerBlock (points : UInt64)
  | weights (weights : PoolWeights)
  | baseDenoms (bases : List BaseDenom)
  | routes (a b : Denom) (routes : List Route)
  | admin (admin : Account)
  | developer (developer : Account)

/-- What makes a change, asked for by a caller. -/
def Change.action (authority caller : Account) : Change → Action Unit
  | .enabled on => setEnabled authority caller on
  | .pointsPerTx ceiling => setPointsPerTx authority caller ceiling
  | .pointsPerBlock ceiling => setPointsPerBlock authority caller ceiling
  | .weights update => setWeights authority caller update
  | .baseDenoms bases => setBaseDenoms authority caller bases
  | .routes a b cycles => setRoutes authority caller a b cycles
  | .admin named => setAdmin authority caller named
  | .developer named => setDeveloper authority caller named

/-- What a change makes of the configuration. -/
def Change.reconfigure (c : EngineConfig) : Change → EngineConfig
  | .enabled on => { c with enabled := on }
  | .pointsPerTx ceiling => { c with pointsPerTx := ceiling }
  | .pointsPerBlock ceiling => { c with pointsPerBlock := ceiling }
  | .weights update => { c with weights := c.weights.merge update }
  | .baseDenoms _ => c
  | .routes _ _ _ => c
  | .admin named => { c with admin := some named }
  | .developer named => { c with developer := some named }

theorem Change.search_reconfigure (change : Change) (c : EngineConfig) :
    (change.reconfigure c).search = c.search := by cases change <;> rfl

/-- A change that is made touches the configuration, the counter and the registry only. -/
theorem frame_of_change {change : Change}
    (h : (change.action authority caller).perform s = (.ok u, t)) {k : Bytes}
    (hbudget : ¬ Key.IsBudget k) (hregistry : ¬ Key.IsRegistry k) : t.get k = s.get k := by
  have hreconfigured : ∀ {f : EngineConfig → EngineConfig}, Reconfigured f s t →
      t.get k = s.get k := by
    rintro f ⟨config, -, -, rfl⟩
    exact Store.get_set_of_ne s _ (Key.ne_of_kind fun heq => hbudget (.inl heq))
  cases change with
  | enabled on => exact hreconfigured (setEnabled_ok h).2
  | pointsPerTx ceiling => exact hreconfigured (setPointsPerTx_ok h).2
  | pointsPerBlock ceiling =>
      exact (setPointsPerBlock_ok.1 h).2.frame (fun heq => hbudget (.inl heq))
        fun heq => hbudget (.inr heq)
  | weights update => exact hreconfigured (setWeights_ok h).2
  | baseDenoms bases =>
      obtain ⟨-, previous, mid, -, hmid, hcleared⟩ := setBaseDenoms_ok h
      obtain ⟨mid', _, hmid', -, -, -, hframe⟩ :=
        Registry.perform_setBaseDenoms s (Registry.validateList_of_perform hmid)
      obtain ⟨t', hcleared', hview⟩ := Registry.perform_clearPools (dropped previous bases) mid
      rw [hmid] at hmid'
      cases hmid'
      rw [hcleared] at hcleared'
      cases hcleared'
      rw [(hview k).2 fun b _ hstart => hregistry (.inr (.inr (Key.kind_of_start hstart)))]
      exact hframe k fun heq => hregistry (.inr (.inl heq))
  | routes a b cycles =>
      obtain ⟨-, config, -, hset⟩ := setRoutes_ok h
      obtain ⟨-, -, rfl⟩ := Registry.setRoutes_ok.1 hset
      have hother : k ≠ Key.pairRoutes (DenomPair.canonical a b) :=
        Key.ne_of_kind fun heq => hregistry (.inl heq)
      split
      · rw [Store.get_delete, if_neg hother]
      · exact Store.get_set_of_ne s _ hother
  | admin named => exact hreconfigured (setAdmin_ok h).2
  | developer named => exact hreconfigured (setDeveloper_ok h).2

/-- A change that fails leaves the store as it was. -/
theorem clean_change (change : Change) : (change.action authority caller).Clean := by
  cases change with
  | enabled on => exact Action.Clean.query_bind fun _ => clean_changeConfig _
  | pointsPerTx ceiling =>
      exact Action.Clean.query_bind fun _ => Budget.clean_setPointsPerTx ceiling
  | pointsPerBlock ceiling =>
      exact Action.Clean.query_bind fun _ => Budget.clean_setPointsPerBlock ceiling
  | weights update => exact Action.Clean.query_bind fun _ => Budget.clean_setWeights update
  | baseDenoms bases =>
      refine Action.Clean.query_bind fun _ => Action.Clean.query_bind fun previous => ?_
      refine Action.Clean.bind_total (Registry.clean_setBaseDenoms bases) fun _ => ?_
      exact Action.Total.forM fun _ => Action.Total.update _
  | routes a b cycles =>
      exact Action.Clean.query_bind fun _ => Action.Clean.query_bind fun _ =>
        Registry.clean_setRoutes a b cycles
  | admin named =>
      rw [Change.action, setAdmin]
      dsimp only
      split
      · exact Action.Clean.query_bind fun _ => clean_changeConfig _
      · exact clean_changeConfig _
  | developer named => exact Action.Clean.query_bind fun _ => clean_changeConfig _

end Backrun.Governance
