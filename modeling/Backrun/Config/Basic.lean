import Backrun.Asset.Account
import Backrun.Config.FeeSchedule
import Backrun.Config.SearchParams

/-!
# Configuration

Everything that governance may tune.  The configuration is one record, and only
a valid one is ever stored.
-/

namespace Backrun

/-- What is wrong with a configuration. -/
inductive ConfigFault where
  | pointsPerTx
  | pointsPerBlock
  | txAboveBlock (perTx perBlock : UInt64)
  | weight (poolType : PoolType)
  | search (fault : SearchFault)
  | schedule (fault : ScheduleFault)
  deriving DecidableEq, Repr

namespace ConfigFault

/-- The fault in words. -/
def message : ConfigFault → String
  | .pointsPerTx =>
      "max pool points per tx must be between 1 and " ++ toString greatestPointsPerTx
  | .pointsPerBlock =>
      "max pool points per block must be between 1 and " ++ toString greatestPointsPerBlock
  | .txAboveBlock perTx perBlock =>
      "max points per tx (" ++ toString perTx ++ ") exceeds max points per block ("
        ++ toString perBlock ++ ")"
  | .weight poolType =>
      poolType.text ++ " pool weight must be between 1 and " ++ toString greatestWeight
  | .search fault => fault.message
  | .schedule fault => fault.message

end ConfigFault

/-- Everything that governance may tune. -/
structure EngineConfig where
  enabled : Bool
  admin : Option Account
  developer : Option Account
  /-- The most points that one transaction may spend. -/
  pointsPerTx : UInt64
  /-- The most points that one block may spend. -/
  pointsPerBlock : UInt64
  weights : PoolWeights
  search : SearchParams
  schedule : FeeSchedule
  deriving DecidableEq, Repr

/-- Accepts a ceiling for transactions between one and the greatest. -/
def validatePointsPerTx (points : UInt64) : Except ConfigFault Unit :=
  if points = 0 ∨ greatestPointsPerTx < points then .error .pointsPerTx else .ok ()

/-- Accepts a ceiling for blocks between one and the greatest. -/
def validatePointsPerBlock (points : UInt64) : Except ConfigFault Unit :=
  if points = 0 ∨ greatestPointsPerBlock < points then .error .pointsPerBlock else .ok ()

/-- Accepts weights between one and the greatest. -/
def PoolWeights.validate (w : PoolWeights) : Except ConfigFault Unit :=
  match w.fault? with
  | some t => .error (.weight t)
  | none => .ok ()

namespace EngineConfig

/-- The configuration of an engine that nobody configured. -/
def standard : EngineConfig where
  enabled := true
  admin := none
  developer := none
  pointsPerTx := 18
  pointsPerBlock := 100
  weights := .standard
  search := .standard
  schedule := .standard

/-- Accepts a configuration whose parts are sound and whose ceiling for transactions
does not exceed the one for blocks. -/
def validate (c : EngineConfig) : Except ConfigFault Unit := do
  validatePointsPerTx c.pointsPerTx
  validatePointsPerBlock c.pointsPerBlock
  if c.pointsPerBlock < c.pointsPerTx then
    .error (.txAboveBlock c.pointsPerTx c.pointsPerBlock)
  else
    c.weights.validate
    c.search.validate.mapError .search
    c.schedule.validate.mapError .schedule

end EngineConfig

instance : Codec EngineConfig where
  toJson c := .object [("enabled", toJson c.enabled), ("admin_account", Codec.optionJson c.admin),
    ("developer_account", Codec.optionJson c.developer),
    ("max_points_per_tx", toJson c.pointsPerTx), ("max_points_per_block", toJson c.pointsPerBlock),
    ("pool_weights", toJson c.weights), ("search", toJson c.search),
    ("developer_fee_schedule", toJson c.schedule)]
  ofJson? j :=
    match Fields.ofJson? ["enabled", "admin_account", "developer_account", "max_points_per_tx",
        "max_points_per_block", "pool_weights", "search", "developer_fee_schedule"] j with
    | some ⟨named, [enabled, admin, developer, perTx, perBlock, weights, search, schedule]⟩ => do
        return ⟨← Fields.required enabled, ← Fields.optional named admin,
          ← Fields.optional named developer, ← Fields.required perTx, ← Fields.required perBlock,
          ← Fields.required weights, ← Fields.required search, ← Fields.required schedule⟩
    | _ => none

end Backrun
