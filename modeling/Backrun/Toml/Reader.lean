import Backrun.Toml.Basic
import Backrun.Toml.Scalar
import Backrun.Toml.Text

/-!
# Reading TOML

Values first, then the lines of a document.  Functions that read on take a bound on
the number of their steps; the length of the text is always enough.
-/

namespace Backrun.Toml

/-- How deep arrays and inline tables may nest. -/
def deepest : Nat := 79

/-- Drops the blanks at the front of a line. -/
def skipBlanks (cs : List Char) : List Char := cs.dropWhile isBlank

/-- Drops blanks, line breaks and comments. A comment that holds a character which may not
stand in it ends there, so that the character is met again. -/
def skipLines (inComment : Bool) : List Char → List Char
  | '\r' :: '\n' :: rest => skipLines false rest
  | '\n' :: rest => skipLines false rest
  | c :: rest =>
      if inComment then if isCommentChar c then skipLines true rest else c :: rest
      else if c == '#' then skipLines true rest
      else if isBlank c then skipLines false rest
      else c :: rest
  | [] => []

/-- What follows the end of a line, which only a comment may precede. -/
def lineEnd (cs : List Char) : Rest :=
  let rest :=
    match skipBlanks cs with
    | '#' :: rest => rest.dropWhile isCommentChar
    | rest => rest
  match rest with
  | [] => some []
  | '\n' :: rest => some rest
  | '\r' :: '\n' :: rest => some rest
  | _ => none

/-! ## Keys -/

/-- Whether a character may stand in a name without quotes. -/
def isNameChar (c : Char) : Bool := c.isAlphanum || c == '-' || c == '_'

/-- A name, quoted or not. -/
def name? : List Char → Scan
  | '"' :: rest => basicString rest
  | '\'' :: rest => literalString rest
  | cs =>
      match cs.takeWhile isNameChar with
      | [] => none
      | name => some (name, cs.dropWhile isNameChar)

/-- The names of a dotted key, with blanks around each. -/
def names? : Nat → List Char → Option (List String × List Char)
  | 0, _ => none
  | fuel + 1, cs => do
      let (name, rest) ← name? (skipBlanks cs)
      match skipBlanks rest with
      | '.' :: rest =>
          let (names, rest) ← names? fuel rest
          return (String.ofList name :: names, rest)
      | rest => return ([String.ofList name], rest)

/-- A key that can be looked up: the path to a table, and a name in it. -/
structure Key where
  path : List String
  name : String

/-- A dotted key, not longer than values may nest. -/
def key? (cs : List Char) : Option (Key × List Char) := do
  let (names, rest) ← names? (cs.length + 1) cs
  let name ← names.getLast?
  if names.length ≤ deepest then some (⟨names.dropLast, name⟩, rest) else none

/-- A key and the sign of equality behind it. -/
def keyOfPair (cs : List Char) : Option (Key × List Char) := do
  let (key, rest) ← key? cs
  let rest ← expect '=' rest
  return (key, skipBlanks rest)

/-! ## Values -/

mutual

/-- A value that may nest the given number of levels. -/
def value : Nat → Nat → List Char → Option (Toml × List Char)
  | 0, _, _ => none
  | fuel + 1, levels, cs =>
      match cs with
      | '"' :: _ => (string? cs).map fun s => (.text (String.ofList s.1), s.2)
      | '\'' :: _ => (string? cs).map fun s => (.text (String.ofList s.1), s.2)
      | '[' :: rest =>
          match levels with
          | 0 => none
          | levels + 1 => (items fuel levels (skipLines false rest)).map fun r => (.array r.1, r.2)
      | '\x7b' :: rest =>
          match levels with
          | 0 => none
          | levels + 1 =>
              match skipBlanks rest with
              | '\x7d' :: rest => some (.table [], rest)
              | rest =>
                  (inlineMembers fuel levels [] rest).map fun r => (.table (closeMembers r.1), r.2)
      | 't' :: 'r' :: 'u' :: 'e' :: rest => some (.boolean true, rest)
      | 'f' :: 'a' :: 'l' :: 's' :: 'e' :: rest => some (.boolean false, rest)
      | _ => (scalar? cs).map fun rest => (.scalar, rest)

/-- The items of an array up to its end. A comma may follow the last one. -/
def items : Nat → Nat → List Char → Option (List Toml × List Char)
  | 0, _, _ => none
  | fuel + 1, levels, cs =>
      match cs with
      | ']' :: rest => some ([], rest)
      | _ =>
          match value fuel levels cs with
          | none => none
          | some (v, rest) =>
              match skipLines false rest with
              | ',' :: rest =>
                  (items fuel levels (skipLines false rest)).map fun r => (v :: r.1, r.2)
              | ']' :: rest => some ([v], rest)
              | _ => none

/-- The members of an inline table up to its end, after those that were read. -/
def inlineMembers : Nat → Nat → Members → List Char → Option (Members × List Char)
  | 0, _, _, _ => none
  | fuel + 1, levels, ms, cs =>
      match keyOfPair cs with
      | none => none
      | some (key, rest) =>
          match value fuel levels rest with
          | none => none
          | some (v, rest) =>
              match ms.assign key.path key.name v with
              | none => none
              | some ms =>
                  match skipBlanks rest with
                  | ',' :: rest => inlineMembers fuel levels ms rest
                  | '\x7d' :: rest => some (ms, rest)
                  | _ => none

end

/-! ## Documents -/

/-- A document as far as it was read: its members, and the table of the last header. -/
structure Draft where
  members : Members
  header : List String

namespace Draft

/-- Reads a header behind its first bracket. -/
def readHeader (d : Draft) (cs : List Char) : Option (Draft × List Char) := do
  let (key, rest) ← key? cs
  let members ← d.members.openTable key.path key.name
  let rest ← expect ']' rest
  return (⟨members, key.path ++ [key.name]⟩, ← lineEnd rest)

/-- Reads a header of an array of tables behind its first two brackets. -/
def readItemHeader (d : Draft) (cs : List Char) : Option (Draft × List Char) := do
  let (key, rest) ← key? cs
  let members ← d.members.openItem key.path key.name
  let rest ← expect ']' (← expect ']' rest)
  return (⟨members, key.path ++ [key.name]⟩, ← lineEnd rest)

/-- Reads a key and its value. -/
def readPair (d : Draft) (cs : List Char) : Option (Draft × List Char) := do
  let (key, rest) ← keyOfPair cs
  let (v, rest) ← value (rest.length + 1) deepest rest
  let members ← d.members.assignUnder d.header key.path key.name v
  return (⟨members, d.header⟩, ← lineEnd rest)

/-- Reads a line that is not empty. -/
def readLine (d : Draft) : List Char → Option (Draft × List Char)
  | '[' :: '[' :: rest => d.readItemHeader rest
  | '[' :: rest => d.readHeader rest
  | cs => d.readPair cs

/-- Reads all lines. -/
def readLines : Nat → Draft → List Char → Option Draft
  | 0, _, _ => none
  | fuel + 1, d, cs =>
      match skipLines false cs with
      | [] => some d
      | rest =>
          match d.readLine rest with
          | some (d, rest) => readLines fuel d rest
          | none => none

end Draft

/-- Drops a mark of the byte order at the front. -/
def dropMark : List Char → List Char
  | '\uFEFF' :: cs => cs
  | cs => cs

/-- The table that a document writes. -/
def ofText? (text : String) : Option Toml := do
  let cs := dropMark text.toList
  let draft ← Draft.readLines (cs.length + 1) ⟨[], []⟩ cs
  return .table (closeMembers draft.members)

end Backrun.Toml
