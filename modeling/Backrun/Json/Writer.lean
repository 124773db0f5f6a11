import Backrun.Json.Basic

/-!
# Writing JSON

`render` writes a value on one line without blanks, which is the form of stored
records.  `pretty` writes one item or member a line, two blanks a level.
-/

namespace Backrun.Json

/-- A character inside a string. Quotes, backslashes and control characters are
escaped, all else stands for itself. -/
def escape (c : Char) : List Char :=
  if c = '"' then ['\\', '"']
  else if c = '\\' then ['\\', '\\']
  else if c = '\n' then ['\\', 'n']
  else if c = '\r' then ['\\', 'r']
  else if c = '\t' then ['\\', 't']
  else if c = '\x08' then ['\\', 'b']
  else if c = '\x0c' then ['\\', 'f']
  else if c.toNat < 0x20 then
    ['\\', 'u', '0', '0', (c.toNat / 16).digitChar, (c.toNat % 16).digitChar]
  else [c]

/-- A string in its quotes. -/
def renderString (s : String) : List Char := '"' :: (s.toList.flatMap escape ++ ['"'])

/-- A number. -/
def Number.render : Number → List Char
  | .integer (.ofNat n) => Nat.toDigits 10 n
  | .integer (.negSucc n) => '-' :: Nat.toDigits 10 (n + 1)
  | .real negative x => if negative then '-' :: x.text else x.text

mutual

/-- A value on one line. -/
def render : Json → List Char
  | .null => ['n', 'u', 'l', 'l']
  | .bool true => ['t', 'r', 'u', 'e']
  | .bool false => ['f', 'a', 'l', 's', 'e']
  | .number n => n.render
  | .text s => renderString s
  | .array vs => '[' :: renderItems vs
  | .object ms => '{' :: renderMembers ms
  | .unreadable => ['n', 'u', 'l', 'l']

/-- Items with commas between them, and the closing bracket. -/
def renderItems : List Json → List Char
  | [] => [']']
  | v :: vs => render v ++ renderMoreItems vs

/-- Items with a comma before each, and the closing bracket. -/
def renderMoreItems : List Json → List Char
  | [] => [']']
  | v :: vs => ',' :: (render v ++ renderMoreItems vs)

/-- Members with commas between them, and the closing brace. -/
def renderMembers : List (String × Json) → List Char
  | [] => ['}']
  | (name, v) :: ms => renderString name ++ ':' :: (render v ++ renderMoreMembers ms)

/-- Members with a comma before each, and the closing brace. -/
def renderMoreMembers : List (String × Json) → List Char
  | [] => ['}']
  | (name, v) :: ms =>
      ',' :: (renderString name ++ ':' :: (render v ++ renderMoreMembers ms))

end

/-- A line break and the blanks of a level. -/
def newline (level : Nat) : List Char := '\n' :: List.replicate (2 * level) ' '

mutual

/-- A value over several lines, its closing bracket at the given level. -/
def prettyAt (level : Nat) : Json → List Char
  | .array (v :: vs) =>
      '[' :: (newline (level + 1) ++ prettyAt (level + 1) v ++ prettyMoreItems level vs)
  | .object ((name, v) :: ms) =>
      '{' :: (newline (level + 1) ++ renderString name ++ ':' :: ' ' ::
        (prettyAt (level + 1) v ++ prettyMoreMembers level ms))
  | v => render v

/-- The items after the first, and the closing bracket. -/
def prettyMoreItems (level : Nat) : List Json → List Char
  | [] => newline level ++ [']']
  | v :: vs => ',' :: (newline (level + 1) ++ prettyAt (level + 1) v ++ prettyMoreItems level vs)

/-- The members after the first, and the closing brace. -/
def prettyMoreMembers (level : Nat) : List (String × Json) → List Char
  | [] => newline level ++ ['}']
  | (name, v) :: ms =>
      ',' :: (newline (level + 1) ++ renderString name ++ ':' :: ' ' ::
        (prettyAt (level + 1) v ++ prettyMoreMembers level ms))

end

/-- A value over several lines. -/
def pretty (v : Json) : List Char := prettyAt 0 v

end Backrun.Json
