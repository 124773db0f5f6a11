/-!
# Numerals

Reading of digits in bases up to sixteen.  Writing is `Nat.repr` for base ten
and `Nat.toDigits` for the others.
-/

namespace Backrun.Numeral

/-- The value of a digit: `0` to `9`, then letters of either case from ten on. -/
def digitValue? (c : Char) : Option Nat :=
  if '0' ≤ c ∧ c ≤ '9' then some (c.toNat - '0'.toNat)
  else if 'a' ≤ c ∧ c ≤ 'z' then some (c.toNat - 'a'.toNat + 10)
  else if 'A' ≤ c ∧ c ≤ 'Z' then some (c.toNat - 'A'.toNat + 10)
  else none

/-- The value of a digit of the given base. -/
def digitIn? (base : Nat) (c : Char) : Option Nat :=
  match digitValue? c with
  | some d => if d < base then some d else none
  | none => none

/-- The number that the digits of a base write, continuing from `value`. -/
def readFrom? (base : Nat) (value : Nat) : List Char → Option Nat
  | [] => some value
  | c :: cs =>
      match digitIn? base c with
      | some d => readFrom? base (base * value + d) cs
      | none => none

/-- The number that a run of digits writes; the empty run writes zero. -/
def read? (base : Nat) (cs : List Char) : Option Nat := readFrom? base 0 cs

/-- Splits off the decimal digits at the front. -/
def spanDigits (cs : List Char) : List Char × List Char :=
  (cs.takeWhile Char.isDigit, cs.dropWhile Char.isDigit)

/-- The number that decimal digits write. -/
def ofDigits (cs : List Char) : Nat := Nat.ofDigitChars 10 cs 0

/-- The decimal digits of `n`, filled up with zeros on the left to `width` digits. -/
def padded (width n : Nat) : List Char :=
  let ds := Nat.toDigits 10 n
  List.replicate (width - ds.length) '0' ++ ds

/-- Decimal text of `n / 10 ^ places` with exactly `places` digits after the point,
and no point if there are none. -/
def fixedPoint (places n : Nat) : List Char :=
  if places = 0 then Nat.toDigits 10 n
  else Nat.toDigits 10 (n / Nat.pow 10 places) ++ '.' :: padded places (n % Nat.pow 10 places)

end Backrun.Numeral
