import Backrun.Budget.Basic

/-!
# Changing the budget

The ceiling for transactions never exceeds the one for blocks, and the points that
count as spent never exceed the ceiling for blocks.
-/

namespace Backrun.Budget

/-- Sets the ceiling for transactions. -/
def setPointsPerTx (points : UInt64) : Action Unit := do
  ConfigFault.raise (validatePointsPerTx points)
  let config ← storedConfig
  if config.pointsPerBlock < points then
    throw (.invalidConfig (.txAboveBlock points config.pointsPerBlock))
  saveConfig { config with pointsPerTx := points }

/-- Sets the ceiling for blocks. A block that has spent more has spent just that much. -/
def setPointsPerBlock (points : UInt64) : Action Unit := do
  ConfigFault.raise (validatePointsPerBlock points)
  let config ← storedConfig
  if points < config.pointsPerTx then
    throw (.invalidConfig (.blockBelowTx points config.pointsPerTx))
  let counter ← counter
  saveConfig { config with pointsPerBlock := points }
  if points < counter.consumed then
    saveCounter { counter with consumed := points }

/-- Changes the weights of the given families and keeps the others. -/
def setWeights (weights : PoolWeights) : Action Unit := do
  ConfigFault.raise weights.validate
  let config ← storedConfig
  saveConfig { config with weights := config.weights.merge weights }

end Backrun.Budget
