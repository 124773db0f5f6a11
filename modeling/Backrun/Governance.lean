import Backrun.Budget.Ceilings
import Backrun.Registry.Pools
import Backrun.Registry.Routes

/-!
# Governance

The changes that need permission.  The admin may make them, and while there is no
admin the governing authority may.  The authority may name another admin at any
time.  Permission is asked before anything else is looked at.
-/

namespace Backrun.Governance

variable (authority caller : Account)

/-- Whether a configuration lets an account govern. -/
def mayGovern (config : EngineConfig) : Bool :=
  match config.admin with
  | some admin => admin == caller
  | none => authority == caller

/-- Turns away those who may not govern. -/
def authorize : Query Unit := do
  let config ← storedConfig
  if ¬ mayGovern authority caller config then throw (.unauthorized (.notAdmin caller))

/-- Changes the stored configuration. -/
def changeConfig (f : EngineConfig → EngineConfig) : Action Unit := do
  let config ← storedConfig
  saveConfig (f config)

/-- Turns the engine on or off. -/
def setEnabled (enabled : Bool) : Action Unit := do
  authorize authority caller
  changeConfig fun c => { c with enabled }

/-- Sets the ceiling for transactions. -/
def setPointsPerTx (points : UInt64) : Action Unit := do
  authorize authority caller
  Budget.setPointsPerTx points

/-- Sets the ceiling for blocks. -/
def setPointsPerBlock (points : UInt64) : Action Unit := do
  authorize authority caller
  Budget.setPointsPerBlock points

/-- Changes the weights of the given families. -/
def setWeights (weights : PoolWeights) : Action Unit := do
  authorize authority caller
  Budget.setWeights weights

/-- Replaces the base denominations and forgets the pools of those that are dropped. -/
def setBaseDenoms (bases : List BaseDenom) : Action Unit := do
  authorize authority caller
  let previous ← Registry.baseDenoms
  Registry.setBaseDenoms bases
  let dropped := previous.filter fun b => (BaseDenom.position? bases b.denom).isNone
  dropped.forM fun b => Registry.clearPools b.denom

/-- Registers routes, none longer than the configured limit. -/
def setRoutes (a b : Denom) (routes : List Route) : Action Unit := do
  authorize authority caller
  let config ← storedConfig
  Registry.setRoutes a b routes config.search.mostHops

/-- Names the admin. -/
def setAdmin (admin : Account) : Action Unit := do
  if caller ≠ authority then
    authorize authority caller
  changeConfig fun c => { c with admin := some admin }

/-- Names the developer. -/
def setDeveloper (developer : Account) : Action Unit := do
  authorize authority caller
  changeConfig fun c => { c with developer := some developer }

end Backrun.Governance
