/-!
# Arguments

The command line names a topic of the stored state, and before it perhaps the file of
the settings.  Whatever else is written is a usage error.
-/

namespace Backrun.CommandLine

/-- A part of the stored state. -/
inductive Topic where
  | routes
  | baseDenoms
  | budget
  /-- The developer fees, of one denomination if it is named. -/
  | developerFees (denom : Option String)
  | stats
  /-- Everything, as a genesis document. -/
  | genesis
  deriving DecidableEq, Repr

/-- What a command line asks for. -/
structure Request where
  /-- The file of the settings, if it is named. -/
  settings : Option String
  topic : Topic
  deriving DecidableEq, Repr

/-- Why there is nothing to show. -/
inductive Stop where
  | help
  | usage
  deriving DecidableEq, Repr

namespace Topic

/-- The topics by name. -/
def named : List (String × Topic) :=
  [("routes", .routes), ("base-denoms", .baseDenoms), ("budget", .budget),
    ("developer-fees", .developerFees none), ("stats", .stats), ("export", .genesis)]

/-- The topic that one more operand makes of this one. -/
def refine? (topic : Topic) (operand : String) : Option Topic :=
  match topic with
  | .developerFees none => some (.developerFees (some operand))
  | _ => none

end Topic

/-- Whether an argument asks for help. Behind the short form nothing counts. -/
def asksForHelp (arg : String) : Bool := arg == "--help" || arg.toList.take 2 == ['-', 'h']

/-- Whether an argument has the form of an option. A single dash is a plain value. -/
def isOption (arg : String) : Bool := arg.toList.head? == some '-' && arg != "-"

/-- Reads the operands of a topic. Behind two dashes nothing is an option. -/
def operands (plain : Bool) (topic : Topic) : List String → Except Stop Topic
  | [] => .ok topic
  | arg :: rest =>
      if !plain && arg == "--" then operands true topic rest
      else if !plain && asksForHelp arg then .error .help
      else if !plain && isOption arg then .error .usage
      else
        match topic.refine? arg with
        | some topic => operands plain topic rest
        | none => .error .usage

/-- Reads the words behind `help`, which may name one topic. -/
def helpWords : List String → Stop
  | [] => .help
  | ["help"] => .help
  | [word] => if (Topic.named.lookup word).isSome then .help else .usage
  | _ => .usage

/-! ## The file of the settings -/

/-- What the options say about the file of the settings. A file that is an argument of its
own is held back until the next option or the end of the line, so that a topic or the word
`help` behind it comes first. -/
structure Naming where
  /-- The file, once it is accepted. -/
  file : Option String := none
  /-- A file that is still to be accepted. -/
  held : Option (List Char) := none
  deriving DecidableEq, Repr

namespace Naming

/-- Accepts the file that is held back, if it is the first one and not empty. -/
def settle (n : Naming) : Except Stop Naming :=
  match n.held with
  | none => .ok n
  | some file =>
      if n.file.isSome ∨ file.isEmpty then .error .usage
      else .ok ⟨some (String.ofList file), none⟩

/-- Holds a file back. -/
def hold (n : Naming) (file : List Char) : Except Stop Naming := do
  let n ← n.settle
  return ⟨n.file, some file⟩

/-- Accepts a file at once. -/
def accept (n : Naming) (file : List Char) : Except Stop Naming := do
  let n ← n.hold file
  n.settle

end Naming

/-! ## The line -/

/-- Reads a command line behind what is already said about the file of the settings. -/
def parse (naming : Naming) : List String → Except Stop Request
  | [] => .error .usage
  | arg :: rest =>
      match arg.toList with
      | ['-', 's'] => valueOf naming rest
      | '-' :: 's' :: '=' :: file => do parse (← naming.accept file) rest
      | '-' :: 's' :: file => do parse (← naming.accept file) rest
      | '-' :: 'h' :: _ => helpOption naming
      | cs =>
          if arg = "--settings" then valueOf naming rest
          else if "--settings=".toList.isPrefixOf cs then do
            parse (← naming.accept (cs.drop "--settings=".length)) rest
          else if arg = "--help" then helpOption naming
          else if arg = "help" then .error (helpWords rest)
          else
            match Topic.named.lookup arg with
            | some topic => do
                let topic ← operands false topic rest
                return ⟨(← naming.settle).file, topic⟩
            | none => .error .usage
where
  /-- Reads the file of the settings as the next argument. -/
  valueOf (naming : Naming) : List String → Except Stop Request
    | [] => .error .usage
    | file :: rest =>
        if isOption file then .error .usage
        else do parse (← naming.hold file.toList) rest
  /-- Help is shown unless the file before it is refused. -/
  helpOption (naming : Naming) : Except Stop Request := do
    let _ ← naming.settle
    .error .help

/-- The variable that names the file of the settings where the command line does not. -/
def settingsVariable : String := "ARB_SETTINGS"

/-- The file of the settings that nobody named. -/
def standardSettings : String := "config/settings.toml"

/-- The file of the settings of a request in an environment. -/
def settingsFile (r : Request) (named : Option String) : Except Stop String :=
  match r.settings, named with
  | some file, _ => .ok file
  | none, some "" => .error .usage
  | none, some file => .ok file
  | none, none => .ok standardSettings

end Backrun.CommandLine
