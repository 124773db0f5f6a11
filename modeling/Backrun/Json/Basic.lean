import Backrun.Number.Binary64

/-!
# JSON values

Numbers keep what a reader of records asks of them: whether they are integers
that a 64-bit word holds, or binary fractions.  Members of an object keep their
order and their repetitions, because a record rejects a field given twice.
-/

namespace Backrun

/-- A JSON number. -/
inductive Json.Number where
  /-- An integer written without fraction or exponent, within 64 bits. -/
  | integer (value : Int)
  /-- Any other number, read as a binary fraction. -/
  | real (negative : Bool) (magnitude : Binary64)
  deriving DecidableEq, Repr

/-- A JSON value. -/
inductive Json where
  | null
  | bool (value : Bool)
  | number (value : Json.Number)
  | text (value : String)
  | array (items : List Json)
  | object (members : List (String × Json))
  /-- Well-formed text without a value: a number out of range, or a string or
  member name with half of a surrogate pair. -/
  | unreadable
  deriving Repr

namespace Json

/-- A non-negative integer. -/
def ofNat (n : Nat) : Json := .number (.integer n)

end Json

end Backrun
