import Backrun.Codec.Basic

/-!
# Decimal fractions

Signed decimal fractions with a 96-bit coefficient and at most 28 places.  The
number of places is part of the value, so `0.2` and `0.20` differ; comparisons
with whole numbers go by the quantity.  A zero that is left over when a negative
fraction loses its digits keeps the sign; no other zero has one.
-/

namespace Backrun

/-- Coefficients have 96 bits besides the sign. -/
def Decimal.coefficientBound : Nat := Nat.pow 2 96

/-- The fraction `coefficient / 10 ^ places`, or its opposite. -/
structure Decimal where
  negative : Bool := false
  coefficient : Nat
  places : Nat
  coefficient_lt : coefficient < Decimal.coefficientBound := by decide
  places_le : places ≤ 28 := by decide
  /-- Only a zero of all places is what is left of a negative fraction. -/
  places_of_zero : negative = true → coefficient = 0 → places = 28 := by decide
  deriving DecidableEq, Repr

namespace Decimal

/-- The most places. -/
def mostPlaces : Nat := 28

/-- A fraction of the given sign, if coefficient and places are within bounds. A negative
zero needs all places. -/
def ofSigned? (negative : Bool) (coefficient places : Nat) : Option Decimal :=
  if h : coefficient < coefficientBound ∧ places ≤ 28
      ∧ (negative = true → coefficient = 0 → places = 28) then
    some ⟨negative, coefficient, places, h.1, h.2.1, h.2.2⟩
  else none

/-- A fraction of the given sign, which zero does not take. -/
def ofParts? (negative : Bool) (coefficient places : Nat) : Option Decimal :=
  ofSigned? (negative && coefficient != 0) coefficient places

/-- Whether the quantity is below zero. -/
def isNegative (d : Decimal) : Bool := d.negative && d.coefficient != 0

/-- Whether the quantity is above one. -/
def exceedsOne (d : Decimal) : Bool := !d.negative && Nat.pow 10 d.places < d.coefficient

/-- Decimal text with all places. -/
def text (d : Decimal) : String :=
  let digits := Numeral.fixedPoint d.places d.coefficient
  String.ofList (if d.negative then '-' :: digits else digits)

/-! ## Reading -/

/-- Whether a character may stand behind the digits that a fraction has room for. -/
def isSurplus (c : Char) : Bool := c.isDigit || c == '_'

/-- A coefficient rounded by the first digit it has no room for: half and more
goes up, and a coefficient that becomes too large gives up a place. Only digits and
low lines may follow. -/
def roundAt (coefficient places digit : Nat) (surplus : List Char) : Option (Nat × Nat) :=
  if !surplus.all isSurplus then none
  else if digit < 5 then some (coefficient, places)
  else if coefficient + 1 < coefficientBound then some (coefficient + 1, places)
  else if places = 0 then none
  else some ((coefficient + 5) / 10, places - 1)

/-- Coefficients below this bound take their next digit within one 64-bit word. -/
def wordBound : Nat := (UInt64.size - 1) / 10 - 255

/-- Reads digits with at most one point. Low lines may follow a digit or another low
line. The first digit beyond the room of a fraction decides the rounding, and no digit
behind it counts; whole digits have to fit. A low line behind the last place ends the
number where the coefficient was gathered in one word, and is passed over elsewhere. -/
def scan (coefficient places : Nat) (point started : Bool) : List Char → Option (Nat × Nat)
  | [] => if started then some (coefficient, places) else none
  | c :: cs =>
      if c.isDigit then
        let digit := c.toNat - '0'.toNat
        let next := 10 * coefficient + digit
        if point && places == mostPlaces then roundAt coefficient places digit cs
        else if next < coefficientBound then
          scan next (if point then places + 1 else 0) point true cs
        else if point then roundAt coefficient places digit cs
        else none
      else if c == '.' && !point then scan coefficient places true started cs
      else if c == '_' && started then
        if point && places == mostPlaces && coefficient / 10 < wordBound then
          roundAt coefficient places 0 cs
        else scan coefficient places point true cs
      else none

/-- Reads a fraction without exponent. -/
def ofPlain? (cs : List Char) : Option Decimal :=
  let (negative, digits) :=
    match cs with
    | '-' :: rest => (true, rest)
    | '+' :: rest => (false, rest)
    | rest => (false, rest)
  match scan 0 0 false false digits with
  | some (coefficient, places) => ofParts? negative coefficient places
  | none => none

/-- Reads the digits of an exponent, which may follow a plus sign. -/
def exponent? (cs : List Char) : Option Nat :=
  let digits :=
    match cs with
    | '+' :: rest => rest
    | rest => rest
  if digits.isEmpty then none
  else
    match Numeral.read? 10 digits with
    | some n => if n < UInt32.size then some n else none
    | none => none

/-- Moves the point to the right. Beyond the last place the result is a whole number. -/
def scaleUp? (d : Decimal) (n : Nat) : Option Decimal :=
  if n ≤ d.places then ofParts? d.negative d.coefficient (d.places - n)
  else if mostPlaces < n then none
  else ofParts? d.negative (d.coefficient * Nat.pow 10 (n - d.places)) 0

/-- A coefficient without its last digits, the first of which decides the rounding: half
and more goes up. -/
def dropDigits (coefficient dropped : Nat) : Nat :=
  let kept := coefficient / Nat.pow 10 dropped
  if 5 ≤ coefficient / Nat.pow 10 (dropped - 1) % 10 then kept + 1 else kept

/-- Moves the point to the left. Digits beyond the last place are dropped, and the sign
stays even if nothing else does. -/
def scaleDown? (d : Decimal) (n : Nat) : Option Decimal :=
  if mostPlaces < n then none
  else if d.places + n ≤ mostPlaces then ofParts? d.negative d.coefficient (d.places + n)
  else ofSigned? d.negative (dropDigits d.coefficient (d.places + n - mostPlaces)) mostPlaces

/-- Reads a fraction with an exponent. -/
def ofScientific? (cs : List Char) : Option Decimal :=
  let isMark : Char → Bool := fun c => c == 'e' || c == 'E'
  match ofPlain? (cs.takeWhile fun c => !isMark c), cs.dropWhile fun c => !isMark c with
  | some d, _ :: '-' :: rest =>
      match exponent? rest with
      | some n => d.scaleDown? n
      | none => none
  | some d, _ :: rest =>
      match exponent? rest with
      | some n => d.scaleUp? n
      | none => none
  | _, _ => none

/-- Reads a fraction with or without exponent. -/
def ofChars? (cs : List Char) : Option Decimal :=
  match ofPlain? cs with
  | some d => some d
  | none => ofScientific? cs

/-- Reads a JSON number: an integer exactly, any other by its shortest decimal. -/
def ofNumber? : Json.Number → Option Decimal
  | .integer n => ofParts? (n < 0) n.natAbs 0
  | .real negative x => ofPlain? (if negative then '-' :: x.text else x.text)

end Decimal

instance : Codec Decimal where
  toJson d := .text d.text
  ofJson?
    | .text s => Decimal.ofChars? s.toList
    | .number n => Decimal.ofNumber? n
    | _ => none

end Backrun
