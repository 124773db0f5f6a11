import Backrun.Text.Numeral

/-!
# Strings of TOML

A string is written on one line or over several, with escapes or without.  Each
reader here starts behind the opening quotes and returns what follows the closing
ones.
-/

namespace Backrun.Toml

/-- Whether a character may stand in a comment. -/
def isCommentChar (c : Char) : Bool :=
  c == '\t' || (0x20 ≤ c.toNat && c.toNat ≤ 0x7E) || 0x80 ≤ c.toNat

/-- Whether a character stands for itself in a string with escapes. -/
def isBasicChar (c : Char) : Bool := isCommentChar c && c != '"' && c != '\\'

/-- Whether a character stands for itself in a string without escapes. -/
def isLiteralChar (c : Char) : Bool := isCommentChar c && c != '\''

/-- Blanks within a line. -/
def isBlank (c : Char) : Bool := c == ' ' || c == '\t'

/-- The characters of a string read so far, and the text that follows it. -/
abbrev Scan := Option (List Char × List Char)

/-- Puts a character in front of a string that is being read. -/
def Scan.cons (c : Char) (scan : Scan) : Scan := scan.map fun s => (c :: s.1, s.2)

/-- The character behind a backslash stands for this one. -/
def escaped? : Char → Option Char
  | 'b' => some '\x08'
  | 't' => some '\t'
  | 'n' => some '\n'
  | 'f' => some '\x0c'
  | 'r' => some '\r'
  | '"' => some '"'
  | '\\' => some '\\'
  | _ => none

/-- The character with the given hexadecimal number. -/
def ofHex? (ds : List Char) : Option Char :=
  match Numeral.read? 16 ds with
  | some n => if n.isValidChar then some (Char.ofNat n) else none
  | none => none

/-- A string with escapes on one line. -/
def basicString : List Char → Scan
  | [] => none
  | '"' :: rest => some ([], rest)
  | '\\' :: 'U' :: a :: b :: c :: d :: e :: f :: g :: h :: rest =>
      match ofHex? [a, b, c, d, e, f, g, h] with
      | some x => (basicString rest).cons x
      | none => none
  | '\\' :: 'u' :: a :: b :: c :: d :: rest =>
      match ofHex? [a, b, c, d] with
      | some x => (basicString rest).cons x
      | none => none
  | '\\' :: c :: rest =>
      match escaped? c with
      | some x => (basicString rest).cons x
      | none => none
  | c :: rest => if isBasicChar c then (basicString rest).cons c else none

/-- A string without escapes on one line. -/
def literalString : List Char → Scan
  | [] => none
  | '\'' :: rest => some ([], rest)
  | c :: rest => if isLiteralChar c then (literalString rest).cons c else none

/-- Whether nothing but blanks is left of the line. -/
def atLineEnd (cs : List Char) : Bool :=
  match cs.dropWhile isBlank with
  | '\n' :: _ => true
  | '\r' :: '\n' :: _ => true
  | _ => false

/-- A string with escapes over several lines. A backslash at the end of a line takes the
blanks and line breaks behind it away, which is the case while `trimming`. Up to two
quotes may stand before the closing ones. -/
def longString (trimming : Bool) : List Char → Scan
  | [] => none
  | '"' :: '"' :: '"' :: '"' :: '"' :: rest => some (['"', '"'], rest)
  | '"' :: '"' :: '"' :: '"' :: rest => some (['"'], rest)
  | '"' :: '"' :: '"' :: rest => some ([], rest)
  | '"' :: rest => (longString false rest).cons '"'
  | '\r' :: '\n' :: rest =>
      if trimming then longString true rest else (longString false rest).cons '\n'
  | '\n' :: rest => if trimming then longString true rest else (longString false rest).cons '\n'
  | '\\' :: 'U' :: a :: b :: c :: d :: e :: f :: g :: h :: rest =>
      match ofHex? [a, b, c, d, e, f, g, h] with
      | some x => (longString false rest).cons x
      | none => none
  | '\\' :: 'u' :: a :: b :: c :: d :: rest =>
      match ofHex? [a, b, c, d] with
      | some x => (longString false rest).cons x
      | none => none
  | '\\' :: c :: rest =>
      match escaped? c with
      | some x => (longString false rest).cons x
      | none => if atLineEnd (c :: rest) then longString true (c :: rest) else none
  | c :: rest =>
      if trimming && isBlank c then longString true rest
      else if isBasicChar c then (longString false rest).cons c
      else none

/-- A string without escapes over several lines. -/
def longLiteral : List Char → Scan
  | [] => none
  | '\'' :: '\'' :: '\'' :: '\'' :: '\'' :: rest => some (['\'', '\''], rest)
  | '\'' :: '\'' :: '\'' :: '\'' :: rest => some (['\''], rest)
  | '\'' :: '\'' :: '\'' :: rest => some ([], rest)
  | '\'' :: rest => (longLiteral rest).cons '\''
  | '\r' :: '\n' :: rest => (longLiteral rest).cons '\n'
  | '\n' :: rest => (longLiteral rest).cons '\n'
  | c :: rest => if isLiteralChar c then (longLiteral rest).cons c else none

/-- Drops one line break, which may follow the opening quotes of a long string. -/
def dropLineBreak : List Char → List Char
  | '\n' :: rest => rest
  | '\r' :: '\n' :: rest => rest
  | cs => cs

/-- A string of any form, from its opening quotes on. -/
def string? : List Char → Scan
  | '"' :: '"' :: '"' :: rest => longString false (dropLineBreak rest)
  | '"' :: rest => basicString rest
  | '\'' :: '\'' :: '\'' :: rest => longLiteral (dropLineBreak rest)
  | '\'' :: rest => literalString rest
  | _ => none

end Backrun.Toml
