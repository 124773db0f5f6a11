import Backrun.Config.Stored

/-!
# The point budget

Every cycle costs points.  A block may spend so many, a transaction so many of
those, and a counter holds what the current block has spent.
-/

namespace Backrun

/-! ## Arithmetic that stops at the ends of a 64-bit word -/

namespace Points

/-- The sum, or the largest number of points where a word cannot hold it. -/
def plus (a b : UInt64) : UInt64 :=
  if a.toNat + b.toNat < UInt64.size then a + b else UInt64.ofNat (UInt64.size - 1)

/-- The difference, or zero where it would be negative. -/
def minus (a b : UInt64) : UInt64 := if b ≤ a then a - b else 0

end Points

/-! ## The counter and the ceilings -/

/-- What the block of the given height has spent. -/
structure PointCounter where
  consumed : UInt64
  height : UInt64
  deriving DecidableEq, Repr

namespace PointCounter

/-- Nothing is spent before the first block. -/
def zero : PointCounter := ⟨0, 0⟩

end PointCounter

instance : Codec PointCounter where
  toJson c := .object [("consumed", toJson c.consumed), ("latest_block_height", toJson c.height)]
  ofJson? j :=
    match Fields.ofJson? ["consumed", "latest_block_height"] j with
    | some ⟨_, [consumed, height]⟩ => do
        return ⟨← Fields.required consumed, ← Fields.required height⟩
    | _ => none

/-- The ceilings beside the counter. -/
structure BudgetState where
  pointsPerTx : UInt64
  pointsPerBlock : UInt64
  consumed : UInt64
  height : UInt64
  deriving DecidableEq, Repr

namespace BudgetState

/-- What the block may still spend. -/
def remaining (b : BudgetState) : UInt64 := Points.minus b.pointsPerBlock b.consumed

/-- What one transaction may still spend. -/
def available (b : BudgetState) : UInt64 := min b.pointsPerTx b.remaining

/-- The counter after a debit. -/
def after (b : BudgetState) (points : UInt64) : PointCounter := ⟨b.consumed + points, b.height⟩

end BudgetState

instance : Codec BudgetState where
  toJson b := .object [("max_points_per_tx", toJson b.pointsPerTx),
    ("max_points_per_block", toJson b.pointsPerBlock),
    ("consumed_points_this_block", toJson b.consumed), ("latest_block_height", toJson b.height)]
  ofJson? j :=
    match Fields.ofJson? ["max_points_per_tx", "max_points_per_block",
        "consumed_points_this_block", "latest_block_height"] j with
    | some ⟨_, [perTx, perBlock, consumed, height]⟩ => do
        return ⟨← Fields.required perTx, ← Fields.required perBlock, ← Fields.required consumed,
          ← Fields.required height⟩
    | _ => none

namespace Budget

/-- The stored counter. -/
def counter : Query PointCounter := Query.load Key.pointCounter .pointCounter

/-- Writes the counter. -/
def saveCounter (c : PointCounter) : Action Unit := Action.save Key.pointCounter c

/-- The stored ceilings and the counter. -/
def state : Query BudgetState := do
  let config ← storedConfig
  let counter ← counter
  return ⟨config.pointsPerTx, config.pointsPerBlock, counter.consumed, counter.height⟩

/-- Starts the count anew at a height above the recorded one; says whether it did. -/
def beginBlock (height : UInt64) : Action Bool := do
  let counter ← counter
  if height ≤ counter.height then
    return false
  saveCounter ⟨0, height⟩
  return true

/-- Debits points that one transaction may still spend. -/
def tryConsume (points : UInt64) : Action Unit := do
  let state ← state
  if state.pointsPerTx < points ∨ state.remaining < points then
    throw (.budgetExceeded points state.available)
  saveCounter (state.after points)

end Budget

end Backrun
