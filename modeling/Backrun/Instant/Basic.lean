import Backrun.Instant.Calendar

/-!
# Instants

Instants of universal time with nanoseconds.  A leap second is the last second of
a minute with more than a whole second of nanoseconds.  No other second carries more
than its own: no text is read so, and an instant that did would come back from its text
in the second after.
-/

namespace Backrun

/-- How many nanoseconds a second has. -/
def nanosPerSecond : Nat := 1000000000

/-- How many seconds a day has. -/
def secondsPerDay : Nat := 86400

/-- Whether a second of the day may carry these nanoseconds. -/
def nanosAllowed (second nanos : Nat) : Bool :=
  nanos < nanosPerSecond || (nanos < 2 * nanosPerSecond && second % 60 == 59)

/-- An instant: the days since 1970-01-01, the second of the day and the nanoseconds. -/
structure Instant where
  day : Int
  second : Nat
  nanos : Nat
  day_ge : Date.firstDay ≤ day := by decide
  day_le : day ≤ Date.lastDay := by decide
  second_lt : second < 86400 := by decide
  nanos_allowed : nanosAllowed second nanos = true := by decide
  deriving DecidableEq, Repr

namespace Instant

/-- The start of the year 1970. -/
def epoch : Instant := { day := 0, second := 0, nanos := 0 }

/-- The instant with the given parts, if there is one. -/
def ofParts? (day : Int) (second nanos : Nat) : Option Instant :=
  if h : Date.firstDay ≤ day ∧ day ≤ Date.lastDay ∧ second < 86400
      ∧ nanosAllowed second nanos = true then
    some ⟨day, second, nanos, h.1, h.2.1, h.2.2.1, h.2.2.2⟩
  else none

/-- The leap second that lies between two times of day: one second more when the
earlier time of day is in a leap second, one less when the later one is. -/
def leapBetween (later earlier : Instant) : Int :=
  if earlier.second < later.second ∧ nanosPerSecond ≤ earlier.nanos then 1
  else if later.second < earlier.second ∧ nanosPerSecond ≤ later.nanos then -1
  else 0

/-- The nanoseconds from `earlier` to `later`, negative if the order is wrong. -/
def nanosSince (later earlier : Instant) : Int :=
  let seconds := (later.day - earlier.day) * secondsPerDay
    + ((later.second : Int) - earlier.second) + leapBetween later earlier
  seconds * nanosPerSecond + ((later.nanos : Int) - earlier.nanos)

/-- The whole days of 24 hours from `earlier` to `later`, zero if the order is wrong. -/
def daysSince (later earlier : Instant) : Nat :=
  (nanosSince later earlier).toNat / (secondsPerDay * nanosPerSecond)

end Instant

end Backrun
