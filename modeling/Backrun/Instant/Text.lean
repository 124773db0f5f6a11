import Backrun.Codec.Basic
import Backrun.Instant.Basic
import Backrun.Text.Blank

/-!
# Texts of instants

Instants are written as RFC 3339 in universal time, with none, three, six or nine
digits of the second's fraction, the fewest that keep it.  Reading takes any
offset, blanks between the parts, and one digit where two are usual.
-/

namespace Backrun.Instant

/-! ## Writing -/

/-- The year: four digits, and beyond them or below zero a sign and four digits or more. -/
def yearText (year : Int) : List Char :=
  if 0 ≤ year ∧ year ≤ 9999 then Numeral.padded 4 year.toNat
  else (if year < 0 then '-' else '+') :: Numeral.padded 4 year.natAbs

/-- The fraction of a second behind its point. -/
def fractionText (nanos : Nat) : List Char :=
  if nanos = 0 then []
  else if nanos % 1000000 = 0 then '.' :: Numeral.padded 3 (nanos / 1000000)
  else if nanos % 1000 = 0 then '.' :: Numeral.padded 6 (nanos / 1000)
  else '.' :: Numeral.padded 9 nanos

/-- The written form. A leap second is the sixtieth of its minute. -/
def chars (t : Instant) : List Char :=
  let date := Date.ofDays t.day
  let leap := t.nanos / nanosPerSecond
  yearText date.year ++ '-' :: (Numeral.padded 2 date.month ++ '-' ::
    (Numeral.padded 2 date.day ++ 'T' :: (Numeral.padded 2 (t.second / 3600) ++ ':' ::
      (Numeral.padded 2 (t.second / 60 % 60) ++ ':' ::
        (Numeral.padded 2 (t.second % 60 + leap)
          ++ (fractionText (t.nanos % nanosPerSecond) ++ ['Z']))))))

/-- The written form as text. -/
def text (t : Instant) : String := String.ofList t.chars

/-! ## Reading -/

/-- Reads a number of one to `most` digits behind blanks. -/
def shortNumber (most : Nat) (cs : List Char) : Option (Nat × List Char) :=
  let cs := Text.trimStart cs
  let digits := (cs.take most).takeWhile Char.isDigit
  if digits.isEmpty then none else some (Numeral.ofDigits digits, cs.drop digits.length)

/-- Reads a number of any length. -/
def longNumber (cs : List Char) : Option (Nat × List Char) :=
  match Numeral.spanDigits cs with
  | ([], _) => none
  | (digits, rest) => some (Numeral.ofDigits digits, rest)

/-- Reads a year: up to four digits, or any number of digits behind a sign. -/
def year (cs : List Char) : Option (Int × List Char) :=
  match Text.trimStart cs with
  | '-' :: rest => (longNumber rest).map fun r => (-(r.1 : Int), r.2)
  | '+' :: rest => (longNumber rest).map fun r => ((r.1 : Int), r.2)
  | rest => (shortNumber 4 rest).map fun r => ((r.1 : Int), r.2)

/-- Reads a separator behind blanks. -/
def separator (c : Char) (cs : List Char) : Option (List Char) :=
  match Text.trimStart cs with
  | d :: rest => if d = c then some rest else none
  | [] => none

/-- Reads a date. -/
def date (cs : List Char) : Option (Date × List Char) := do
  let (y, cs) ← year cs
  let cs ← separator '-' cs
  let (m, cs) ← shortNumber 2 cs
  let cs ← separator '-' cs
  let (d, cs) ← shortNumber 2 cs
  return (⟨y, m, d⟩, cs)

/-- Reads the fraction of a second in nanoseconds, cut after nine digits. -/
def fraction : List Char → Option (Nat × List Char)
  | '.' :: cs =>
      match Numeral.spanDigits cs with
      | ([], _) => none
      | (digits, rest) =>
          let kept := digits.take 9
          some (Numeral.ofDigits kept * Nat.pow 10 (9 - kept.length), rest)
  | cs => some (0, cs)

/-- Reads a time of day as second of the day and nanoseconds. The sixtieth second of
a minute is a leap second. -/
def timeOfDay (cs : List Char) : Option (Nat × Nat × List Char) := do
  let (h, cs) ← shortNumber 2 cs
  let cs ← separator ':' cs
  let (m, cs) ← shortNumber 2 cs
  let cs ← separator ':' cs
  let (s, cs) ← shortNumber 2 cs
  let (nanos, cs) ← fraction cs
  if h < 24 ∧ m < 60 ∧ s ≤ 60 then
    if s = 60 then return (3600 * h + 60 * m + 59, nanosPerSecond + nanos, cs)
    else return (3600 * h + 60 * m + s, nanos, cs)
  else none

/-- Reads two digits, the first below the given bound. -/
def twoDigits (firstBelow : Nat) : List Char → Option (Nat × List Char)
  | a :: b :: cs =>
      match Numeral.digitIn? firstBelow a, Numeral.digitIn? 10 b with
      | some x, some y => some (10 * x + y, cs)
      | _, _ => none
  | _ => none

/-- Reads hours and minutes of an offset in seconds, with colons or blanks between them. -/
def offsetSeconds (cs : List Char) : Option (Nat × List Char) := do
  let (h, cs) ← twoDigits 10 cs
  let (m, cs) ← twoDigits 6 (cs.dropWhile fun c => c == ':' || Text.isBlank c)
  return (3600 * h + 60 * m, cs)

/-- Reads the offset from universal time in seconds: the letter Z, the word UTC, or
hours and minutes behind a sign. -/
def offset (cs : List Char) : Option (Int × List Char) :=
  match Text.trimStart cs with
  | [] => none
  | c :: rest =>
      if c == 'Z' || c == 'z' then some (0, rest)
      else if (c :: rest).take 3 |>.map Char.toUpper |> (· == ['U', 'T', 'C']) then
        some (0, rest.drop 2)
      else if c == '+' then (offsetSeconds rest).map fun r => ((r.1 : Int), r.2)
      else if c == '-' || c == '\u2212' then (offsetSeconds rest).map fun r => (-(r.1 : Int), r.2)
      else none

/-- Reads a date, a time of day and an offset below one day. -/
def ofChars? (cs : List Char) : Option Instant :=
  match date cs with
  | none => none
  | some (d, mark :: cs) =>
      if mark == 'T' || mark == 't' || mark == ' ' then
        match timeOfDay cs with
        | none => none
        | some (second, nanos, cs) =>
            match offset cs with
            | none => none
            | some (shift, cs) =>
                if d.isValid && shift.natAbs < secondsPerDay && (Text.trimStart cs).isEmpty then
                  let total := d.toDays * secondsPerDay + second - shift
                  ofParts? (total / secondsPerDay) (total % secondsPerDay).toNat nanos
                else none
      else none
  | some (_, []) => none

end Backrun.Instant

namespace Backrun

instance : Codec Instant where
  toJson t := .text t.text
  ofJson?
    | .text s => Instant.ofChars? s.toList
    | _ => none

end Backrun
