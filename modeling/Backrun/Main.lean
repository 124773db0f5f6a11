import Backrun.CommandLine.Answer
import Backrun.Json.Writer

/-!
# The command

Reads the files and the variables that a run needs and shows what it comes to.
-/

namespace Backrun.CommandLine

/-- How the command is used. -/
def usage : String :=
  "Usage: backrun [--settings FILE] TOPIC\n\n"
    ++ "Topics: routes, base-denoms, budget, developer-fees [DENOM], stats, export"

/-- The text of a file, if it can be read. -/
def readText (path : String) : IO (Option String) := do
  try
    return some (← IO.FS.readFile path)
  catch _ =>
    return none

/-- Whether a character may stand in the name of a variable. -/
def isVariableChar (c : Char) : Bool := Text.isAlphanumeric c || c == '_' || c == '.'

/-- The words of a text that may be names of variables. -/
def variableNames (text : String) : List String :=
  (text.toList.splitOnP fun c => !isVariableChar c).map String.ofList

/-- The values of those variables that are set. -/
def readVariables (names : List String) : IO Environment := do
  let mut environment := []
  for name in names do
    if let some v ← IO.getEnv name then
      environment := environment ++ [(name, v)]
  return environment

/-- Reads a file in addition to those that were read. -/
def readMore (files : Files) (path : String) : IO Files := do
  let text ← readText path
  return fun p => if p = path then text else files p

/-- Reads the files of a run: the settings, and the genesis document that they name. -/
def readFiles (files : Files) (environment : Environment) (args : List String) : IO Files := do
  match request environment args with
  | .error _ => return files
  | .ok (_, path) =>
      let files ← readMore files path
      match Settings.load files environment path with
      | .error _ => return files
      | .ok settings => readMore files settings.general.genesisFile

/-- Runs a command line on the files and the variables around the process. -/
def runProcess (args : List String) : IO Outcome := do
  let files ← readMore (fun _ => none) Settings.envFile
  let names := variableNames ((files Settings.envFile).getD "")
  let environment ← readVariables ([settingsVariable, "ARB_LOG_LEVEL", "ARB_GENESIS"] ++ names)
  let files ← readFiles files environment args
  return run files environment args

end Backrun.CommandLine

open Backrun.CommandLine in
/-- Shows what a command line asks for. -/
def main (args : List String) : IO UInt32 := do
  let outcome ← runProcess args
  match outcome with
  | .shown report => IO.println (String.ofList report.pretty)
  | .failed message => IO.eprintln ("Error: " ++ message)
  | .stopped .help => IO.println usage
  | .stopped .usage => IO.eprintln usage
  return UInt32.ofNat outcome.exitCode
