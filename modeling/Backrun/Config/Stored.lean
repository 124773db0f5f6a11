import Backrun.Store.Action

/-!
# The stored configuration

The configuration is one record.  It is there from genesis on, and only a valid
one is ever written.
-/

namespace Backrun

/-- The stored configuration. -/
def storedConfig : Query EngineConfig := Query.load Key.config .config

/-- A verdict on a part of the configuration as an error of the engine. -/
def ConfigFault.raise (verdict : Except ConfigFault Unit) : Except Error Unit :=
  verdict.mapError fun fault => .invalidConfig (.config fault)

/-- Writes a configuration if it is valid. -/
def saveConfig (c : EngineConfig) : Action Unit := do
  ConfigFault.raise c.validate
  Action.save Key.config c

end Backrun
