import Backrun.Genesis.Basic
import Backrun.Proofs.Engine.Operation

/-!
# Generous pools

Pools that return one more than goes in whatever the store holds, and a bank that keeps no
balances.  Every round trip through such pools earns, so that what becomes of it is up to
the engine alone.
-/

namespace Backrun.Simulation

/-- Pools of one family that return one more than goes in. -/
def generousPools : Market where
  poolType _ := return .balancer
  quote _ input := return input + 1
  swap _ _ input := return input + 1

/-- A bank that keeps no balances. -/
def freeBank : Bank where
  balance _ _ _ := 0
  transfer _ _ _ := return ()
  mint _ _ := return ()
  burn _ _ := return ()

/-- An engine among generous pools. -/
def generous : Engine := ⟨generousPools, freeBank, ⟨"vault", by decide⟩, ⟨"gov", by decide⟩⟩

theorem generous_staysOutside : generous.StaysOutside where
  market := ⟨fun _ _ _ _ _ => nofun⟩
  bank := ⟨fun _ _ _ _ _ => nofun, fun _ _ _ _ => nofun, fun _ _ _ _ => nofun⟩

theorem generousPools_keepsQuotes : generousPools.KeepsQuotes := fun _ _ _ _ _ _ h => h

theorem freeBank_obliges : freeBank.Obliges := ⟨fun _ _ _ => rfl, fun _ _ _ => rfl⟩

/-! ## A round trip -/

/-- The denomination in which the round trip starts. -/
def atom : Denom := ⟨"uatom", by decide⟩

/-- The denomination that it passes through. -/
def osmo : Denom := ⟨"uosmo", by decide⟩

/-- A denomination that another one begins. -/
def atomic : Denom := ⟨"uatom/x", by decide⟩

/-- A round trip through two pools. -/
def roundTrip : Route := ⟨[⟨1, atom, osmo⟩, ⟨2, osmo, atom⟩]⟩

/-- A configuration under which a round trip costs just what one transaction may spend, and
its input is a single step. -/
def tight (ceiling : UInt64) : EngineConfig :=
  { EngineConfig.standard with
    pointsPerTx := 5
    pointsPerBlock := ceiling
    search := { SearchParams.standard with iterations := 1, mostSteps := 1 } }

/-- The round trip as a search with a step of one prices it. -/
def roundTripCandidate : Candidate where
  route := roundTrip
  source := .registered
  routeIndex := 0
  basePosition := 0
  quote := ⟨1, [2, 3], 2⟩
  cost := 5

/-- A genesis in which one route is all that is registered. -/
def routeGenesis (config : EngineConfig) (r : Route) : Genesis :=
  { Genesis.standard with
    config := config
    routes := [⟨⟨atom, osmo⟩, [r]⟩]
    bases := [⟨atom, 1⟩] }

theorem validate_roundTripGenesis : (routeGenesis (tight 10) roundTrip).validate = .ok () := by
  decide +kernel

/-- A trade through the first pool, after which the round trip may be executed. -/
def attempt (block : Block) : Call := ⟨generous, .postTrade block ⟨1, atom, osmo⟩⟩

/-- The authority sets the ceiling for blocks. -/
def recap (ceiling : UInt64) : Call :=
  ⟨generous, .govern generous.authority (.pointsPerBlock ceiling)⟩

end Backrun.Simulation
