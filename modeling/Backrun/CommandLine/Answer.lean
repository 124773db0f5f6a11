import Backrun.CommandLine.Arguments
import Backrun.Genesis.Checkpoint
import Backrun.Settings.Load

/-!
# Answers

The genesis document is stored in memory and a part of it is written as JSON.
Nothing outside is changed.
-/

namespace Backrun.CommandLine

/-- What a run comes to. -/
inductive Outcome where
  | shown (report : Json)
  /-- The outermost of the causes of a failure. -/
  | failed (message : String)
  | stopped (stop : Stop)
  deriving Repr

/-- How the process ends: well, with a failure, or with a usage error. -/
def Outcome.exitCode : Outcome → Nat
  | .shown _ => 0
  | .stopped .help => 0
  | .failed _ => 1
  | .stopped .usage => 2

/-- The first line of a text, without the line break, which may begin with a return. -/
def firstLine (text : String) : String :=
  let line := text.toList.takeWhile (· != '\n')
  String.ofList (if line.getLast? = some '\r' then line.dropLast else line)

/-- The line that names a failure. -/
def Outcome.errorLine? : Outcome → Option String
  | .failed message => some (firstLine message)
  | _ => none

/-- The developer fees of a denomination. -/
def feesOf (raw : String) : Query Json := do
  match Denom.ofString raw with
  | .ok d => return toJson (← Ledger.fees d)
  | .error fault => throw (.invalidConfig (.denom raw fault))

/-- What a topic has to report. -/
def Topic.report : Topic → Query Json
  | .routes => do return toJson (← Registry.allRoutes)
  | .baseDenoms => do return toJson (← Registry.baseDenoms)
  | .budget => do return toJson (← Budget.state)
  | .developerFees (some raw) => feesOf raw
  | .developerFees none => do return toJson (← Ledger.allFees)
  | .stats => do
      let trades ← Ledger.trades
      let profits ← Ledger.allProfits
      return .object [("number_of_trades", toJson trades), ("profits", toJson profits)]
  | .genesis => do return toJson (← Genesis.stored)

/-- What a topic has to report of a genesis document. -/
def showGenesis (g : Genesis) (topic : Topic) : Outcome :=
  match g.store.perform .empty with
  | (.error _, _) => .failed "Failed to load genesis into memory"
  | (.ok (), s) =>
      match topic.report s with
      | .ok report => .shown report
      | .error e => .failed e.message

/-- Loads the settings and the genesis document and reports on a topic. -/
def answer (files : Files) (environment : Environment) (path : String) (topic : Topic) : Outcome :=
  match Settings.load files environment path with
  | .error fault => .failed fault.message
  | .ok settings =>
      match settings.loadGenesis files with
      | .error fault => .failed fault.message
      | .ok g => showGenesis g topic

/-- The topic that a command line asks for, and the file of the settings. -/
def request (environment : Environment) (args : List String) : Except Stop (Topic × String) := do
  let request ← parse {} args
  let path ← settingsFile request (environment.lookup settingsVariable)
  return (request.topic, path)

/-- Runs a command line. -/
def run (files : Files) (environment : Environment) (args : List String) : Outcome :=
  match request environment args with
  | .ok (topic, path) => answer files environment path topic
  | .error stop => .stopped stop

end Backrun.CommandLine
