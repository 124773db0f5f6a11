import Backrun.Genesis.Basic
import Backrun.Settings.EnvFile
import Backrun.Toml.Reader

/-!
# Settings

What the process around the engine has to know: how to log, where the genesis
document is and for which accounts it acts.  All that the chain governs is in the
stored configuration instead.
-/

namespace Backrun

/-- How the process behaves and where it begins. -/
structure GeneralSettings where
  logLevel : String
  jsonLogs : Bool
  genesisFile : String
  deriving DecidableEq, Repr

/-- The accounts that the engine acts for. -/
structure AccountSettings where
  /-- Holds borrowed inputs and booked profits. -/
  vault : Account
  /-- Governs while there is no admin. -/
  authority : Account
  deriving DecidableEq, Repr

/-- What the process around the engine has to know. -/
structure Settings where
  general : GeneralSettings
  accounts : AccountSettings
  deriving DecidableEq, Repr

instance : Codec Settings where
  toJson s := .object [
    ("general", .object [("log_level", toJson s.general.logLevel),
      ("json_logs", toJson s.general.jsonLogs), ("genesis_file", toJson s.general.genesisFile)]),
    ("accounts", .object [("module", toJson s.accounts.vault),
      ("authority", toJson s.accounts.authority)])]
  ofJson? _ := none

/-! ## Faults -/

/-- Why settings or the genesis document cannot be had. -/
inductive SettingsFault where
  | unread (path : String)
  | malformed
  | genesisUnread (path : String)
  | genesisMalformed (path : String)
  | genesisInvalid (path : String)
  deriving DecidableEq, Repr

namespace SettingsFault

/-- The fault in words. -/
def message : SettingsFault → String
  | .unread path => "Failed to read settings file: " ++ path
  | .malformed => "Failed to parse TOML settings"
  | .genesisUnread path => "Failed to read genesis file: " ++ path
  | .genesisMalformed path => "Failed to parse genesis file: " ++ path
  | .genesisInvalid path => "Invalid genesis in " ++ path

end SettingsFault

/-! ## Reading -/

namespace Toml

/-- The given members of a table, or the first items of an array in their place. -/
def fields? (names : List String) : Toml → Option (List (Option Toml))
  | .table members => some (names.map fun name => members.lookup name)
  | .array items => some ((List.range names.length).map fun i => items[i]?)
  | _ => none

/-- A text that has to be there. -/
def text? : Option Toml → Option String
  | some (.text s) => some s
  | _ => none

/-- An account that has to be there. -/
def account? (v : Option Toml) : Option Account :=
  match text? v with
  | some s => (Account.ofString s).toOption
  | none => none

/-- A text with a value of its own when it is missing. -/
def textOr (default : String) : Option Toml → Option String
  | none => some default
  | v => text? v

/-- A truth value with a value of its own when it is missing. -/
def booleanOr (default : Bool) : Option Toml → Option Bool
  | none => some default
  | some (.boolean b) => some b
  | _ => none

end Toml

namespace GeneralSettings

/-- The settings that a table holds. -/
def ofToml? (v : Toml) : Option GeneralSettings :=
  match v.fields? ["log_level", "json_logs", "genesis_file"] with
  | some [logLevel, jsonLogs, genesisFile] => do
      return ⟨← Toml.textOr "info" logLevel, ← Toml.booleanOr false jsonLogs,
        ← Toml.text? genesisFile⟩
  | _ => none

end GeneralSettings

namespace AccountSettings

/-- The accounts that a table holds. -/
def ofToml? (v : Toml) : Option AccountSettings :=
  match v.fields? ["module", "authority"] with
  | some [vault, authority] => do
      return ⟨← Toml.account? vault, ← Toml.account? authority⟩
  | _ => none

end AccountSettings

namespace Settings

/-- The settings that a document holds. -/
def ofToml? (v : Toml) : Option Settings :=
  match v.fields? ["general", "accounts"] with
  | some [some general, some accounts] => do
      return ⟨← GeneralSettings.ofToml? general, ← AccountSettings.ofToml? accounts⟩
  | _ => none

/-- The settings that a text writes. -/
def ofText (text : String) : Except SettingsFault Settings :=
  match (Toml.ofText? text).bind ofToml? with
  | some s => .ok s
  | none => .error .malformed

/-- The settings with what the environment says in place of the file: the log level and
the genesis document. -/
def withOverrides (s : Settings) (environment : Environment) : Settings :=
  let general := s.general
  { s with general := {
      general with
      logLevel := (environment.lookup "ARB_LOG_LEVEL").getD general.logLevel
      genesisFile := (environment.lookup "ARB_GENESIS").getD general.genesisFile } }

end Settings

end Backrun
