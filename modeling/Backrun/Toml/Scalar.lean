import Backrun.Instant.Calendar
import Backrun.Number.Binary64

/-!
# Numbers and times of TOML

Whether a text begins with a number or a time, and what follows it.  An integer has
to fit 64 bits and a fraction must not be too large for a binary fraction.
-/

namespace Backrun.Toml

/-- The rest of a text behind something that was recognised. -/
abbrev Rest := Option (List Char)

/-! ## Times -/

/-- A number of exactly `width` digits. -/
def fixedNumber (width : Nat) (cs : List Char) : Option (Nat × List Char) :=
  let ds := cs.take width
  if ds.length = width ∧ ds.all Char.isDigit then some (Numeral.ofDigits ds, cs.drop width)
  else none

/-- A number of two digits that is at most `most`. -/
def twoDigits (most : Nat) (cs : List Char) : Rest :=
  match fixedNumber 2 cs with
  | some (n, rest) => if n ≤ most then some rest else none
  | none => none

/-- A given character. -/
def expect (c : Char) : List Char → Rest
  | d :: rest => if d = c then some rest else none
  | [] => none

/-- A date. -/
def date (cs : List Char) : Rest := do
  let (year, rest) ← fixedNumber 4 cs
  let rest ← expect '-' rest
  let (month, rest) ← fixedNumber 2 rest
  let rest ← expect '-' rest
  let (day, rest) ← fixedNumber 2 rest
  if 1 ≤ month ∧ month ≤ 12 ∧ 1 ≤ day ∧ day ≤ Date.monthLength year month then some rest else none

/-- A fraction of a second, if there is one. -/
def secondFraction : List Char → List Char
  | '.' :: c :: rest => if c.isDigit then rest.dropWhile Char.isDigit else '.' :: c :: rest
  | cs => cs

/-- A time of day. -/
def timeOfDay (cs : List Char) : Rest := do
  let rest ← twoDigits 23 cs
  let rest ← expect ':' rest
  let rest ← twoDigits 59 rest
  let rest ← expect ':' rest
  let rest ← twoDigits 60 rest
  return secondFraction rest

/-- A distance to universal time, if there is one. -/
def zone (cs : List Char) : List Char :=
  match cs with
  | 'Z' :: rest => rest
  | 'z' :: rest => rest
  | c :: rest =>
      if c = '+' ∨ c = '-' then
        (do twoDigits 59 (← expect ':' (← twoDigits 23 rest))).getD cs
      else cs
  | [] => []

/-- A date, a time of day, or both with or without a distance to universal time. -/
def moment (cs : List Char) : Rest :=
  match date cs with
  | some (c :: rest) =>
      if c = 'T' ∨ c = 't' ∨ c = ' ' then
        match timeOfDay rest with
        | some rest => some (zone rest)
        | none => some (c :: rest)
      else some (c :: rest)
  | some [] => some []
  | none => timeOfDay cs

/-! ## Numbers -/

/-- Digits of a base, with single low lines between them. The first character has been
read; the digits are returned without the low lines. -/
def moreDigits (isDigit : Char → Bool) : List Char → List Char × List Char
  | '_' :: c :: rest =>
      if isDigit c then
        let (ds, rest) := moreDigits isDigit rest
        (c :: ds, rest)
      else ([], '_' :: c :: rest)
  | c :: rest =>
      if isDigit c then
        let (ds, rest) := moreDigits isDigit rest
        (c :: ds, rest)
      else ([], c :: rest)
  | [] => ([], [])

/-- Digits of a base, at least one. -/
def digits (isDigit : Char → Bool) : List Char → Option (List Char × List Char)
  | c :: rest =>
      if isDigit c then
        let (ds, rest) := moreDigits isDigit rest
        some (c :: ds, rest)
      else none
  | [] => none

/-- A sign, if there is one, and whether it is negative. -/
def sign : List Char → Bool × List Char
  | '+' :: rest => (false, rest)
  | '-' :: rest => (true, rest)
  | cs => (false, cs)

/-- Decimal digits without a zero in front. -/
def wholeDigits : List Char → Option (List Char × List Char)
  | '0' :: rest => some (['0'], rest)
  | cs => digits Char.isDigit cs

/-- How many integers are not negative. -/
def integerBound : Nat := Nat.pow 2 63

/-- A number of a base behind its sign, within 63 bits. -/
def basedInteger (base : Nat) (cs : List Char) : Rest := do
  let (ds, rest) ← digits (fun c => (Numeral.digitIn? base c).isSome) cs
  let n ← Numeral.read? base ds
  if n < integerBound then some rest else none

/-- An integer. -/
def integer (cs : List Char) : Rest :=
  match cs with
  | '0' :: 'x' :: rest => basedInteger 16 rest
  | '0' :: 'o' :: rest => basedInteger 8 rest
  | '0' :: 'b' :: rest => basedInteger 2 rest
  | _ => do
      let (negative, rest) := sign cs
      let (ds, rest) ← wholeDigits rest
      let n := Numeral.ofDigits ds
      if n < integerBound ∨ (negative ∧ n = integerBound) then some rest else none

/-- The digits behind a point, if there is one. -/
def fraction : List Char → Option (List Char × List Char)
  | '.' :: rest => digits Char.isDigit rest
  | _ => none

/-- A power of ten, if there is one. -/
def power (cs : List Char) : Option (Int × List Char) :=
  match cs with
  | c :: rest =>
      if c = 'e' ∨ c = 'E' then do
        let (negative, rest) := sign rest
        let (ds, rest) ← digits Char.isDigit rest
        let n := Numeral.ofDigits ds
        return (if negative then -(n : Int) else n, rest)
      else none
  | [] => none

/-- Whether a binary fraction can hold `n * 10 ^ exponent`. The digits decide where the
number is far from the largest one. -/
def isFinite (n : Nat) (exponent : Int) : Bool :=
  let places := (Nat.toDigits 10 n).length + exponent
  if n = 0 ∨ places < 300 then true
  else if 320 < places then false
  else
    let (num, den) :=
      if 0 ≤ exponent then (n * Nat.pow 10 exponent.toNat, 1)
      else (n, Nat.pow 10 (-exponent).toNat)
    (Binary64.nearest? num den).isSome

/-- A number with a fraction or a power of ten. Where both are missing it is none of these. -/
def real (cs : List Char) : Option (Rest) := do
  let (negative, rest) := sign cs
  let (ds, rest) ← wholeDigits rest
  match fraction rest with
  | some (fs, rest) =>
      let (exponent, rest) := (power rest).getD (0, rest)
      let finite := isFinite (Numeral.ofDigits (ds ++ fs)) (exponent - fs.length)
      return if negative || finite then some rest else none
  | none =>
      let (exponent, rest) ← power rest
      return if negative || isFinite (Numeral.ofDigits ds) exponent then some rest else none

/-- Infinity, or what is not a number. -/
def special (cs : List Char) : Rest :=
  match (sign cs).2 with
  | 'i' :: 'n' :: 'f' :: rest => some rest
  | 'n' :: 'a' :: 'n' :: rest => some rest
  | _ => none

/-- A number or a time. -/
def scalar? (cs : List Char) : Rest :=
  match moment cs with
  | some rest => some rest
  | none =>
      match real cs with
      | some verdict => verdict
      | none =>
          match special cs with
          | some rest => some rest
          | none => integer cs

end Backrun.Toml
