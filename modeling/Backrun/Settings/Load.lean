import Backrun.Settings.Basic

/-!
# Loading

Settings come from a file, then from the environment, whose gaps a file of variables
fills.  They name the genesis document, which is loaded only if it is valid.
-/

namespace Backrun

/-- The texts of the files that can be read, by path. -/
abbrev Files := String → Option String

namespace Settings

/-- Where variables are looked for besides the environment. -/
def envFile : String := ".env"

/-- The settings of a file in an environment. -/
def load (files : Files) (environment : Environment) (path : String) :
    Except SettingsFault Settings :=
  match files path with
  | none => .error (.unread path)
  | some text => do
      let settings ← ofText text
      let filled :=
        match files envFile with
        | some more => EnvFile.fill environment more
        | none => environment
      return settings.withOverrides filled

/-- The genesis document that settings name. -/
def loadGenesis (s : Settings) (files : Files) : Except SettingsFault Genesis :=
  let path := s.general.genesisFile
  match files path with
  | none => .error (.genesisUnread path)
  | some text =>
      match Codec.ofText? text.toList with
      | none => .error (.genesisMalformed path)
      | some (g : Genesis) => do
          g.validate.mapError fun _ => .genesisInvalid path
          return g

end Settings

end Backrun
