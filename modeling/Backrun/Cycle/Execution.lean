import Backrun.Cycle.Candidate
import Backrun.Ledger.Fees

/-!
# Executing a cycle

The vault borrows the input, trades it around the cycle, repays it and keeps the
rest as profit.  Every hop has to return what was quoted for it, and the cycle has
to return more than went in.  A cycle that fails leaves nothing behind.
-/

namespace Backrun

/-- The block in which something happens. -/
structure Block where
  height : UInt64
  time : Instant
  deriving DecidableEq, Repr

/-- A cycle that was executed. -/
structure Trade where
  route : Route
  input : Amount
  output : Amount
  profit : Coin
  split : ProfitSplit
  points : UInt64
  deriving DecidableEq, Repr

namespace Candidate

/-- Swaps an amount through hops, each of which has to return what was quoted. -/
def swapAll (market : Market) (vault : Account) (amount : Amount) :
    List (Hop × Amount) → Action Amount
  | [] => return amount
  | (hop, quoted) :: rest => do
      let output ← Action.call (market.swap vault hop amount) fun fault =>
        .executionFailure (.swap hop fault)
      if output < quoted then throw (.executionFailure (.slipped hop output quoted))
      swapAll market vault output rest

/-- Executes a cycle from a base denomination. What it has written stays when it fails. -/
def executeFrom (base : Denom) (market : Market) (bank : Bank) (vault : Account) (block : Block)
    (c : Candidate) : Action Trade := do
  let input : Coin := ⟨base, c.quote.input⟩
  Budget.tryConsume c.cost
  Action.call (bank.mint vault input) fun fault => .executionFailure (.mint input fault)
  let output ← swapAll market vault input.amount (c.route.hops.zip c.quote.outputs)
  if output ≤ input.amount then throw (.executionFailure (.noProfit output input.amount))
  Action.call (bank.burn vault input) fun fault => .executionFailure (.burn input fault)
  let profit : Coin := ⟨base, output - input.amount⟩
  let split ← Ledger.book block.time profit
  let _ ← Ledger.countTrade
  return ⟨c.route, input.amount, output, profit, split, c.cost⟩

/-- Executes a cycle as a whole or not at all. -/
def execute (market : Market) (bank : Bank) (vault : Account) (block : Block) (c : Candidate) :
    Action Trade :=
  Action.atomically do
    match c.route.base? with
    | none => throw (.executionFailure .noHops)
    | some base =>
        if c.quote.outputs.length ≠ c.route.hops.length then
          throw (.executionFailure (.outputCount c.route c.quote.outputs.length))
        executeFrom base market bank vault block c

end Candidate

end Backrun
