import Backrun.Decimal

/-!
# Developer fees

The developer's share of a profit depends on the age of the module in days.  The
schedule lists tiers by the day before which they end; the last one never ends.
-/

namespace Backrun

/-- How many basis points make a whole. -/
def wholeInBasisPoints : Nat := 10000

/-- The developer's share while the module is younger than a number of days. -/
structure FeeTier where
  /-- The first day that the tier no longer covers. -/
  untilDay : Option UInt64
  share : Decimal
  deriving DecidableEq, Repr

/-- What is wrong with a schedule. -/
inductive ScheduleFault where
  | empty
  | lastBounded
  | outside (share : Decimal)
  | tooFine (share : Decimal)
  | notIncreasing
  | openBeforeLast
  deriving DecidableEq, Repr

namespace ScheduleFault

/-- The fault in words. -/
def message : ScheduleFault → String
  | .empty => "developer fee schedule has no tiers"
  | .lastBounded => "last developer fee tier must be open-ended"
  | .outside share => "developer share " ++ share.text ++ " outside [0, 1]"
  | .tooFine share => "developer share " ++ share.text ++ " has more than 4 decimal places"
  | .notIncreasing => "developer fee tiers must be strictly increasing"
  | .openBeforeLast => "only the last developer fee tier may be open-ended"

end ScheduleFault

namespace FeeTier

/-- Whether the tier covers a day, taken on its own. -/
def covers (t : FeeTier) (day : Nat) : Bool :=
  match t.untilDay with
  | some bound => day < bound.toNat
  | none => true

/-- Accepts a share between zero and one with at most four places. -/
def validateShare (t : FeeTier) : Except ScheduleFault Unit :=
  if t.share.isNegative || t.share.exceedsOne then .error (.outside t.share)
  else if 4 < t.share.places then .error (.tooFine t.share)
  else .ok ()

end FeeTier

namespace Decimal

/-- A share in basis points, rounded towards zero and at most the whole. Shares
below zero and shares whose basis points leave 32 bits count as zero. A share whose
product with the whole is too large for a fraction has none: an engine that comes upon
such a share stops. No share that passes the check is anywhere near. -/
def basisPoints? (d : Decimal) : Option Nat :=
  let points := d.coefficient * wholeInBasisPoints / Nat.pow 10 d.places
  if coefficientBound ≤ points then none
  else if d.negative then some 0
  else if points < UInt32.size then some (min points wholeInBasisPoints)
  else some 0

/-- A share in basis points, for shares that have them; zero stands for the others. -/
def basisPoints (d : Decimal) : Nat := d.basisPoints?.getD 0

end Decimal

/-- The tiers of the developer's share in order. -/
structure FeeSchedule where
  tiers : List FeeTier
  deriving DecidableEq, Repr

namespace FeeSchedule

/-- A fifth in the first year, a tenth in the second, a twentieth afterwards. -/
def standard : FeeSchedule :=
  ⟨[⟨some 365, { coefficient := 20, places := 2 }⟩,
    ⟨some 730, { coefficient := 10, places := 2 }⟩,
    ⟨none, { coefficient := 5, places := 2 }⟩]⟩

/-- Accepts tiers with sound shares and increasing bounds, only the last one unbounded.
`previous` is the bound of the tier before. -/
def validateTiers (previous : Option UInt64) : List FeeTier → Except ScheduleFault Unit
  | [] => .ok ()
  | t :: rest =>
      match t.validateShare, t.untilDay with
      | .error f, _ => .error f
      | .ok (), some day =>
          if previous.any fun p => day ≤ p then .error .notIncreasing
          else validateTiers (some day) rest
      | .ok (), none => if rest.isEmpty then .ok () else .error .openBeforeLast

/-- Accepts a schedule whose last tier is unbounded and whose tiers are in order. -/
def validate (s : FeeSchedule) : Except ScheduleFault Unit :=
  match s.tiers.getLast? with
  | none => .error .empty
  | some last => if last.untilDay.isSome then .error .lastBounded else validateTiers none s.tiers

/-- The share of the first tier that covers a day, in basis points, unless the share has
none. -/
def basisPoints? (s : FeeSchedule) (day : Nat) : Option Nat :=
  match s.tiers.find? fun t => t.covers day with
  | some t => t.share.basisPoints?
  | none => some 0

/-- The basis points of a day on which there are some. An engine has no others: where the
share of the day has none, it stops, and zero stands for that. -/
def basisPoints (s : FeeSchedule) (day : Nat) : Nat := (s.basisPoints? day).getD 0

end FeeSchedule

instance : Codec FeeTier where
  toJson t := .object [("until_day", Codec.optionJson t.untilDay),
    ("developer_share", toJson t.share)]
  ofJson? j :=
    match Fields.ofJson? ["until_day", "developer_share"] j with
    | some ⟨named, [untilDay, share]⟩ => do
        return ⟨← Fields.optional named untilDay, ← Fields.required share⟩
    | _ => none

instance : Codec FeeSchedule where
  toJson s := .object [("tiers", toJson s.tiers)]
  ofJson? j :=
    match Fields.ofJson? ["tiers"] j with
    | some ⟨_, [tiers]⟩ => do return ⟨← Fields.required tiers⟩
    | _ => none

end Backrun
