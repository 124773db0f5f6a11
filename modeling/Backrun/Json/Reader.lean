import Backrun.Json.Basic

/-!
# Reading JSON

A document is one value between blanks.  Each reader takes the characters that
remain and returns what it read with the characters after it.
-/

namespace Backrun.Json

/-- Whether a character may stand between the tokens of a document. -/
def isSpace (c : Char) : Bool := c == ' ' || c == '\n' || c == '\t' || c == '\r'

/-- Drops the blanks at the front. -/
def skipSpace (cs : List Char) : List Char := cs.dropWhile isSpace

/-! ## Strings -/

/-- The number that four hexadecimal digits write. -/
def hex4? (a b c d : Char) : Option Nat :=
  match Numeral.digitIn? 16 a, Numeral.digitIn? 16 b, Numeral.digitIn? 16 c,
      Numeral.digitIn? 16 d with
  | some w, some x, some y, some z => some (4096 * w + 256 * x + 16 * y + z)
  | _, _, _, _ => none

/-- Whether a code unit opens a surrogate pair. -/
def isHigh (n : Nat) : Bool := 0xD800 ≤ n && n ≤ 0xDBFF

/-- Whether a code unit closes a surrogate pair. -/
def isLow (n : Nat) : Bool := 0xDC00 ≤ n && n ≤ 0xDFFF

/-- The character of a surrogate pair. -/
def pairChar (high low : Nat) : Char :=
  Char.ofNat (0x10000 + 1024 * (high - 0xD800) + (low - 0xDC00))

/-- The character that a one-letter escape names. -/
def escaped? : Char → Option Char
  | '"' => some '"'
  | '\\' => some '\\'
  | '/' => some '/'
  | 'b' => some '\x08'
  | 'f' => some '\x0c'
  | 'n' => some '\n'
  | 'r' => some '\r'
  | 't' => some '\t'
  | _ => none

/-- Puts a character before the rest of a string, where that has a value. -/
def consChar (c : Char) :
    Option (Option (List Char) × List Char) → Option (Option (List Char) × List Char)
  | some (some s, rest) => some (some (c :: s), rest)
  | r => r

/-- Takes its value away from a string. -/
def spoil : Option (Option (List Char) × List Char) → Option (Option (List Char) × List Char)
  | some (_, rest) => some (none, rest)
  | none => none

/-- Reads a string behind its opening quote. The characters are missing if the
string holds half of a surrogate pair. -/
def stringBody : List Char → Option (Option (List Char) × List Char)
  | [] => none
  | '"' :: rest => some (some [], rest)
  | '\\' :: 'u' :: a :: b :: c :: d :: '\\' :: 'u' :: a' :: b' :: c' :: d' :: rest =>
      match hex4? a b c d with
      | none => none
      | some n =>
          if isHigh n then
            match hex4? a' b' c' d' with
            | none => none
            | some m =>
                if isLow m then consChar (pairChar n m) (stringBody rest)
                else spoil (stringBody ('\\' :: 'u' :: a' :: b' :: c' :: d' :: rest))
          else if isLow n then
            spoil (stringBody ('\\' :: 'u' :: a' :: b' :: c' :: d' :: rest))
          else
            consChar (Char.ofNat n) (stringBody ('\\' :: 'u' :: a' :: b' :: c' :: d' :: rest))
  | '\\' :: 'u' :: a :: b :: c :: d :: rest =>
      match hex4? a b c d with
      | none => none
      | some n =>
          if isHigh n || isLow n then spoil (stringBody rest)
          else consChar (Char.ofNat n) (stringBody rest)
  | '\\' :: e :: rest =>
      match escaped? e with
      | none => none
      | some c => consChar c (stringBody rest)
  | c :: rest => if c.toNat < 0x20 then none else consChar c (stringBody rest)

/-! ## Numbers -/

/-- A number as it is written. -/
structure Numeral where
  negative : Bool
  whole : List Char
  fraction : Option (List Char)
  exponent : Option Int

/-- Reads the digits after a decimal point, if there is one. -/
def fractionPart : List Char → Option (Option (List Char) × List Char)
  | '.' :: cs =>
      match Numeral.spanDigits cs with
      | ([], _) => none
      | (ds, rest) => some (some ds, rest)
  | cs => some (none, cs)

/-- Reads the digits of an exponent. -/
def exponentDigits (negative : Bool) (cs : List Char) : Option (Option Int × List Char) :=
  match Numeral.spanDigits cs with
  | ([], _) => none
  | (ds, rest) =>
      let n : Int := Numeral.ofDigits ds
      some (some (if negative then -n else n), rest)

/-- Reads an exponent, if there is one. -/
def exponentPart : List Char → Option (Option Int × List Char)
  | c :: cs =>
      if c == 'e' || c == 'E' then
        match cs with
        | '+' :: rest => exponentDigits false rest
        | '-' :: rest => exponentDigits true rest
        | rest => exponentDigits false rest
      else some (none, c :: cs)
  | [] => some (none, [])

/-- Reads the parts of a number behind its sign. -/
def unsignedNumeral (negative : Bool) (cs : List Char) : Option (Numeral × List Char) :=
  match Numeral.spanDigits cs with
  | ([], _) => none
  | ('0' :: _ :: _, _) => none
  | (whole, rest) =>
      match fractionPart rest with
      | none => none
      | some (fraction, rest) =>
          match exponentPart rest with
          | none => none
          | some (exponent, rest) => some (⟨negative, whole, fraction, exponent⟩, rest)

/-- Reads the parts of a number. -/
def numeral : List Char → Option (Numeral × List Char)
  | '-' :: cs => unsignedNumeral true cs
  | cs => unsignedNumeral false cs

/-- Appends a digit to a significand, unless a 64-bit word cannot hold the result. -/
def pushDigit? (significand : Nat) (c : Char) : Option Nat :=
  let next := 10 * significand + (c.toNat - '0'.toNat)
  if next < UInt64.size then some next else none

/-- The significand of the digits before the point, and how many of them it leaves out. -/
def wholeSignificand (significand : Nat) : List Char → Nat × Nat
  | [] => (significand, 0)
  | c :: cs =>
      match pushDigit? significand c with
      | some next => wholeSignificand next cs
      | none => (significand, cs.length + 1)

/-- The significand extended by digits after the point, and how many of them it takes in. -/
def fractionSignificand (significand taken : Nat) : List Char → Nat × Nat
  | [] => (significand, taken)
  | c :: cs =>
      match pushDigit? significand c with
      | some next => fractionSignificand next (taken + 1) cs
      | none => (significand, taken)

/-- A written number as a binary fraction: at most 64 bits of leading digits,
times a power of ten. -/
def Numeral.real (n : Numeral) : Json :=
  let (head, dropped) := wholeSignificand 0 n.whole
  let (significand, taken) := fractionSignificand head 0 (n.fraction.getD [])
  let exponent : Int := (dropped : Int) - (taken : Int) + n.exponent.getD 0
  match Binary64.ofDecimal? significand exponent with
  | some x => .number (.real n.negative x)
  | none => .unreadable

/-- The value of a written number: an integer if it is written as one and a signed
or unsigned 64-bit word holds it; a negative zero is no integer. -/
def Numeral.value (n : Numeral) : Json :=
  match n.fraction, n.exponent with
  | none, none =>
      let magnitude := Numeral.ofDigits n.whole
      if n.negative then
        if 0 < magnitude ∧ magnitude ≤ UInt64.size / 2 then .number (.integer (-(magnitude : Int)))
        else n.real
      else if magnitude < UInt64.size then .number (.integer magnitude)
      else n.real
  | _, _ => n.real

/-! ## Values -/

/-- The value of a string. -/
def ofChars : Option (List Char) → Json
  | some cs => .text (String.ofList cs)
  | none => .unreadable

/-- An object of the members read, which has no value if a name has none. -/
def ofMembers (members : List (Option (List Char) × Json)) : Json :=
  if members.any fun m => m.1.isNone then .unreadable
  else .object (members.map fun m => (String.ofList (m.1.getD []), m.2))

mutual

/-- Reads one value, with `fuel` for the nesting and the items. -/
def value : Nat → List Char → Option (Json × List Char)
  | 0, _ => none
  | fuel + 1, cs =>
      match skipSpace cs with
      | 'n' :: 'u' :: 'l' :: 'l' :: rest => some (.null, rest)
      | 't' :: 'r' :: 'u' :: 'e' :: rest => some (.bool true, rest)
      | 'f' :: 'a' :: 'l' :: 's' :: 'e' :: rest => some (.bool false, rest)
      | '"' :: rest =>
          match stringBody rest with
          | none => none
          | some (s, rest) => some (ofChars s, rest)
      | '[' :: rest =>
          match skipSpace rest with
          | ']' :: rest => some (.array [], rest)
          | rest =>
              match items fuel rest with
              | none => none
              | some (vs, rest) => some (.array vs, rest)
      | '{' :: rest =>
          match skipSpace rest with
          | '}' :: rest => some (.object [], rest)
          | rest =>
              match members fuel rest with
              | none => none
              | some (ms, rest) => some (ofMembers ms, rest)
      | rest =>
          match numeral rest with
          | none => none
          | some (n, rest) => some (n.value, rest)

/-- Reads the items of an array up to its closing bracket. -/
def items : Nat → List Char → Option (List Json × List Char)
  | 0, _ => none
  | fuel + 1, cs =>
      match value fuel cs with
      | none => none
      | some (v, rest) =>
          match skipSpace rest with
          | ']' :: rest => some ([v], rest)
          | ',' :: rest =>
              match items fuel rest with
              | none => none
              | some (vs, rest) => some (v :: vs, rest)
          | _ => none

/-- Reads the members of an object up to its closing brace. -/
def members : Nat → List Char → Option (List (Option (List Char) × Json) × List Char)
  | 0, _ => none
  | fuel + 1, cs =>
      match skipSpace cs with
      | '"' :: rest =>
          match stringBody rest with
          | none => none
          | some (name, rest) =>
              match skipSpace rest with
              | ':' :: rest =>
                  match value fuel rest with
                  | none => none
                  | some (v, rest) =>
                      match skipSpace rest with
                      | '}' :: rest => some ([(name, v)], rest)
                      | ',' :: rest =>
                          match members fuel rest with
                          | none => none
                          | some (ms, rest) => some ((name, v) :: ms, rest)
                      | _ => none
              | _ => none
      | _ => none

end

/-- Reads a whole document. -/
def ofText? (cs : List Char) : Option Json :=
  match value (2 * cs.length + 2) cs with
  | some (v, rest) => if (skipSpace rest).isEmpty then some v else none
  | none => none

end Backrun.Json
