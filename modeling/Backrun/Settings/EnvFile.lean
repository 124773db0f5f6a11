import Backrun.Text.Alphanumeric
import Backrun.Text.Blank

/-!
# Files of variables

A file of variables sets one variable a line.  It fills the gaps of an environment
and never overrides it.  Values may refer to variables, those of the environment
first and then those of the lines before.  Reading stops for good at the first line
that is no assignment; what was read until then counts.
-/

namespace Backrun

/-- Variables with their values. -/
abbrev Environment := List (String × String)

namespace EnvFile

/-! ## References -/

/-- What the references of a line may mean. -/
structure Scope where
  environment : Environment
  /-- The values of the lines before. -/
  earlier : Environment

/-- The value of a variable, empty if it has none. -/
def Scope.value (scope : Scope) (name : List Char) : List Char :=
  let name := String.ofList name
  match scope.environment.lookup name with
  | some v => v.toList
  | none => ((scope.earlier.lookup name).getD "").toList

/-! ## Values -/

/-- Where the reader of a value stands. -/
inductive Mode where
  /-- Outside of quotes. -/
  | plain
  /-- Between single quotes. -/
  | single
  /-- Between double quotes. -/
  | double
  /-- Behind the value, where only a comment may follow. -/
  | done
  deriving DecidableEq, Repr

/-- The character behind a backslash stands for this one. -/
def escaped? : Char → Option Char
  | '\\' => some '\\'
  | '\'' => some '\''
  | '"' => some '"'
  | '$' => some '$'
  | ' ' => some ' '
  | 'n' => some '\n'
  | _ => none

/-- What the reader of a value expects next. -/
inductive Expecting where
  | anything
  /-- The character behind a backslash. -/
  | escape
  /-- The rest of the name of a reference, the name so far in reverse. Without braces a
  name has letters and digits only. -/
  | reference (name : List Char)
  /-- The rest of the name of a reference in braces. -/
  | braced (name : List Char)
  deriving DecidableEq, Repr

/-- Reads a value, what was read so far in reverse. A line may not end between quotes or
inside braces. -/
def value? (scope : Scope) (mode : Mode) (expecting : Expecting) (read : List Char) :
    List Char → Option (List Char)
  | [] =>
      if mode = .single ∨ mode = .double then none
      else
        match expecting with
        | .braced _ => none
        | .reference name => some (read.reverse ++ scope.value name.reverse)
        | .anything | .escape => some read.reverse
  | c :: rest =>
      match mode, expecting with
      | .done, _ =>
          if c = ' ' ∨ c = '\t' then value? scope .done .anything read rest
          else if c = '#' then some read.reverse
          else none
      | mode, .escape =>
          match escaped? c with
          | some x => value? scope mode .anything (x :: read) rest
          | none => none
      | .single, _ =>
          if c = '\'' then value? scope .plain .anything read rest
          else value? scope .single .anything (c :: read) rest
      | mode, .reference name =>
          if Text.isAlphanumeric c then value? scope mode (.reference (c :: name)) read rest
          else if c = '\x7b' ∧ name.isEmpty then value? scope mode (.braced []) read rest
          else
            let read := (scope.value name.reverse).reverse ++ read
            if c = '$' then value? scope mode (.reference []) read rest
            else value? scope mode .anything (c :: read) rest
      | mode, .braced name =>
          if c = '\x7d' then
            value? scope mode .anything ((scope.value name.reverse).reverse ++ read) rest
          else value? scope mode (.braced (c :: name)) read rest
      | .double, .anything =>
          if c = '$' then value? scope .double (.reference []) read rest
          else if c = '"' then value? scope .plain .anything read rest
          else if c = '\\' then value? scope .double .escape read rest
          else value? scope .double .anything (c :: read) rest
      | .plain, .anything =>
          if c = '$' then value? scope .plain (.reference []) read rest
          else if c = '\'' then value? scope .single .anything read rest
          else if c = '"' then value? scope .double .anything read rest
          else if c = '\\' then value? scope .plain .escape read rest
          else if c = ' ' ∨ c = '\t' then value? scope .done .anything read rest
          else value? scope .plain .anything (c :: read) rest

/-! ## Lines -/

/-- The name of a variable at the front of a text, and the rest behind blanks. -/
def name? : List Char → Option (List Char × List Char)
  | [] => none
  | c :: rest =>
      let isNameChar := fun d : Char => d.isAlphanum || d == '_' || d == '.'
      if c.isAlpha || c == '_' then
        some (c :: rest.takeWhile isNameChar, Text.trimStart (rest.dropWhile isNameChar))
      else none

/-- What follows the sign of equality. -/
def afterEquals : List Char → Option (List Char)
  | '=' :: rest => some (Text.trimStart rest)
  | _ => none

/-- A variable and the text of its value. The word `export` may stand in front, and is a
name itself if the sign of equality follows it. -/
def assignment? (cs : List Char) : Option (List Char × List Char) := do
  let (name, rest) ← name? cs
  match afterEquals rest with
  | some text => return (name, text)
  | none =>
      if name = "export".toList then
        let (name, rest) ← name? rest
        return (name, ← afterEquals rest)
      else none

/-- Whether a line, or what is left of it, says nothing. -/
def isSilent (cs : List Char) : Bool := cs.isEmpty || cs.head? == some '#'

/-- Adds the variables of lines to an environment that does not have them yet. -/
def addLines (scope : Scope) : List (List Char) → Environment
  | [] => scope.environment
  | line :: rest =>
      let cs := Text.trimStart (Text.trimEnd line)
      if isSilent cs then addLines scope rest
      else
        match assignment? cs with
        | none => scope.environment
        | some (name, text) =>
            match if isSilent text then some [] else value? scope .plain .anything [] text with
            | none => scope.environment
            | some v =>
                let entry := (String.ofList name, String.ofList v)
                let environment :=
                  if (scope.environment.lookup entry.1).isSome then scope.environment
                  else scope.environment ++ [entry]
                addLines ⟨environment, entry :: scope.earlier⟩ rest

/-- The lines of a text. -/
def lines (cs : List Char) : List (List Char) := cs.splitOn '\n'

/-- The environment with the variables of a file added. -/
def fill (environment : Environment) (text : String) : Environment :=
  addLines ⟨environment, []⟩ (lines text.toList)

end EnvFile

end Backrun
