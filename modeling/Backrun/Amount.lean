import Backrun.Codec.Basic

/-!
# Amounts

Amounts of an asset are 256-bit words.  The plain operators work modulo
`2 ^ 256`; the operations here say what happens at the border.
-/

namespace Backrun

/-- An amount of one asset. -/
abbrev Amount := BitVec 256

namespace Amount

/-- How many amounts there are. -/
def bound : Nat := Nat.pow 2 256

/-- The largest amount. -/
def greatest : Amount := BitVec.allOnes 256

/-- The sum, if a word holds it. -/
def checkedAdd (a b : Amount) : Option Amount :=
  if a.toNat + b.toNat < bound then some (a + b) else none

/-- The difference, if it is not negative. -/
def checkedSub (a b : Amount) : Option Amount :=
  if b.toNat ≤ a.toNat then some (a - b) else none

/-- The product, if a word holds it. -/
def checkedMul (a b : Amount) : Option Amount :=
  if a.toNat * b.toNat < bound then some (a * b) else none

/-- The difference, or zero where it would be negative. -/
def saturatingSub (a b : Amount) : Amount :=
  if b.toNat ≤ a.toNat then a - b else 0

/-- A multiple, or the largest amount where a word cannot hold it. -/
def times (a : Amount) (multiplier : Nat) : Amount :=
  if a.toNat * multiplier < bound then BitVec.ofNat 256 (a.toNat * multiplier) else greatest

/-- Decimal text. -/
def text (a : Amount) : String := Nat.repr a.toNat

/-- Lower-case hexadecimal text behind `0x`, without zeros in front. -/
def hexText (a : Amount) : String := String.ofList ('0' :: 'x' :: Nat.toDigits 16 a.toNat)

/-- Splits off the sign of the base: sixteen, eight or two, else ten. -/
def splitBase : List Char → Nat × List Char
  | '0' :: 'x' :: cs => (16, cs)
  | '0' :: 'X' :: cs => (16, cs)
  | '0' :: 'o' :: cs => (8, cs)
  | '0' :: 'O' :: cs => (8, cs)
  | '0' :: 'b' :: cs => (2, cs)
  | '0' :: 'B' :: cs => (2, cs)
  | cs => (10, cs)

/-- Reads digits of the base that the text announces. Low lines between digits are
skipped, and no digits at all are zero. -/
def ofText? (s : String) : Option Amount :=
  let (base, cs) := splitBase s.toList
  match Numeral.read? base (cs.filter (· != '_')) with
  | some n => if n < bound then some (BitVec.ofNat 256 n) else none
  | none => none

end Amount

instance : Codec Amount where
  toJson a := .text a.hexText
  ofJson?
    | .number (.integer (.ofNat n)) => if n < UInt64.size then some (BitVec.ofNat 256 n) else none
    | .text s => Amount.ofText? s
    | _ => none

end Backrun
