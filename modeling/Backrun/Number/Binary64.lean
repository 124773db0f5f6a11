import Backrun.Text.Numeral

/-!
# Binary floating point

The finite magnitudes of the format binary64, in exact integer arithmetic: the
nearest number to a fraction, products and quotients rounded once, and the
shortest decimal that names a number and no other.
-/

namespace Backrun

/-- The finite magnitude `significand * 2 ^ exponent`. -/
structure Binary64 where
  significand : Nat
  exponent : Int
  deriving DecidableEq, Repr

namespace Binary64

/-- The exponent of the numbers next to zero. -/
def leastExponent : Int := -1074

/-- The exponent of the largest finite numbers. -/
def greatestExponent : Int := 971

/-- The least significand of a number that is not next to zero; twice as much is out of bounds. -/
def leastNormal : Nat := Nat.pow 2 52

/-- The quotient rounded to the nearest integer, a tie to the even one. -/
def roundDiv (num den : Nat) : Nat :=
  let q := num / den
  let r := num % den
  if den < 2 * r ∨ (den = 2 * r ∧ q % 2 = 1) then q + 1 else q

/-- The fraction `num / den` divided by `2 ^ e`. -/
def unscale (num den : Nat) (e : Int) : Nat × Nat :=
  if e < 0 then (num * Nat.pow 2 e.natAbs, den) else (num, den * Nat.pow 2 e.natAbs)

/-- The number nearest to `num / den`, unless that lies beyond the finite ones. -/
def nearest? (num den : Nat) : Option Binary64 :=
  if num = 0 then some ⟨0, leastExponent⟩
  else
    let guess : Int := (num.log2 : Int) - (den.log2 : Int) - 52
    let trial := unscale num den guess
    let e := max leastExponent (if trial.1 < leastNormal * trial.2 then guess - 1 else guess)
    let scaled := unscale num den e
    let m := roundDiv scaled.1 scaled.2
    let result : Binary64 := if m = 2 * leastNormal then ⟨leastNormal, e + 1⟩ else ⟨m, e⟩
    if greatestExponent < result.exponent then none else some result

/-- The number as a fraction. -/
def fraction (x : Binary64) : Nat × Nat := unscale x.significand 1 (-x.exponent)

/-- The rounded product. -/
def mul? (x y : Binary64) : Option Binary64 :=
  nearest? (x.fraction.1 * y.fraction.1) (x.fraction.2 * y.fraction.2)

/-- The rounded quotient by a number other than zero. -/
def div? (x y : Binary64) : Option Binary64 :=
  nearest? (x.fraction.1 * y.fraction.2) (x.fraction.2 * y.fraction.1)

/-- The number nearest to a power of ten. -/
def powerOfTen? (k : Nat) : Option Binary64 := nearest? (Nat.pow 10 k) 1

/-- Multiplies by a power of ten of at most 308 places. -/
def shiftOnce? (x : Binary64) (exponent : Int) : Option Binary64 :=
  match powerOfTen? exponent.natAbs with
  | none => none
  | some power => if 0 ≤ exponent then x.mul? power else x.div? power

/-- Multiplies by a power of ten, dividing by `10 ^ 308` first as often as needed,
each quotient rounded. A product beyond the finite numbers has no value. -/
def shift? (x : Binary64) (exponent : Int) : Nat → Option Binary64
  | 0 => some ⟨0, leastExponent⟩
  | divisions + 1 =>
      if exponent.natAbs ≤ 308 then x.shiftOnce? exponent
      else if x.significand = 0 then some x
      else if 0 ≤ exponent then none
      else
        match x.shiftOnce? (-308) with
        | none => none
        | some y => shift? y (exponent + 308) divisions

/-- The decimal `significand * 10 ^ exponent`, the significand rounded first. Two
divisions by `10 ^ 308` leave nothing of a 64-bit significand. -/
def ofDecimal? (significand : Nat) (exponent : Int) : Option Binary64 :=
  match nearest? significand 1 with
  | none => none
  | some x => x.shift? exponent 3

/-! ## Shortest decimal -/

/-- The least `p` with `x < 10 ^ p`, for a number other than zero. -/
def magnitude (x : Binary64) : Int :=
  let f := x.fraction
  if f.2 ≤ f.1 then (Nat.toDigits 10 (f.1 / f.2)).length
  else
    match (List.range 330).find? fun j => f.2 ≤ f.1 * Nat.pow 10 j with
    | some j => 1 - (j : Int)
    | none => 0

/-- A multiple of `10 ^ power` between the two midpoints around `x`, the nearer
of two. Distances are counted in quarters of the unit in the last place. -/
def onGrid? (x : Binary64) (power : Int) : Option Nat :=
  let m := x.significand
  let quarter := unscale 1 1 (2 - x.exponent)
  let a := quarter.1 * (if power < 0 then Nat.pow 10 power.natAbs else 1)
  let b := quarter.2 * (if power < 0 then 1 else Nat.pow 10 power.natAbs)
  let low := if m = leastNormal ∧ leastExponent < x.exponent then 4 * m - 1 else 4 * m - 2
  let high := 4 * m + 2
  let k := 4 * m * a / b
  let below : Bool := if m % 2 = 0 then low * a ≤ k * b else low * a < k * b
  let above : Bool := if m % 2 = 0 then (k + 1) * b ≤ high * a else (k + 1) * b < high * a
  if below && above then
    if 4 * m * a - k * b < (k + 1) * b - 4 * m * a then some k else some (k + 1)
  else if below then some k
  else if above then some (k + 1)
  else none

/-- The first grid, from coarse to fine, with a multiple that names `x`. -/
def firstGrid (x : Binary64) (power : Int) : Nat → Nat × Int
  | 0 => (0, 0)
  | steps + 1 =>
      match x.onGrid? power with
      | some k => (k, power)
      | none => firstGrid x (power - 1) steps

/-- The shortest decimal `c * 10 ^ p` that names `x`, as `(c, p)`. -/
def shortest (x : Binary64) : Nat × Int :=
  if x.significand = 0 then (0, 0) else firstGrid x (x.magnitude - 1) 18

/-- Drops zeros at the end of a decimal fraction with the given places. -/
def dropZeros : Nat → Nat → Nat × Nat
  | 0, c => (0, c)
  | places + 1, c => if c % 10 = 0 then dropZeros places (c / 10) else (places + 1, c)

/-- Positional text of the shortest decimal, without exponent and without a point
for an integer. -/
def text (x : Binary64) : List Char :=
  let (c, p) := x.shortest
  if 0 ≤ p then Nat.toDigits 10 (c * Nat.pow 10 p.natAbs)
  else
    let (places, d) := dropZeros p.natAbs c
    Numeral.fixedPoint places d

end Binary64

end Backrun
