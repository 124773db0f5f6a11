import Backrun.Store.Action

/-!
# Statistics

How many cycles were executed and what they earned in each denomination.
-/

namespace Backrun.Ledger

/-- The number of executed cycles. -/
def trades : Query UInt64 := do
  match ← Query.find Key.tradeCount with
  | some count => return count
  | none => return 0

/-- Writes the number of executed cycles. -/
def setTrades (count : UInt64) : Action Unit := Action.save Key.tradeCount count

/-- Counts one more cycle and returns the new count. -/
def countTrade : Action UInt64 := do
  let count ← trades
  setTrades (count + 1)
  return count + 1

/-- What was ever earned in a denomination. -/
def profit (d : Denom) : Query Coin := Query.load (Key.profits d) (.profits d)

/-- What was ever earned in every denomination. -/
def allProfits : Query (List Coin) := Query.loadAll Key.allProfits

/-- Writes what was ever earned in a denomination. -/
def setProfit (total : Coin) : Action Unit := Action.save (Key.profits total.denom) total

/-- The amount that a query finds, zero where nothing was recorded. -/
def amountOrZero (q : Query Coin) : Query Amount := do
  match ← Query.unlessMissing q with
  | some coin => return coin.amount
  | none => return 0

/-- Adds to what was ever earned in a denomination. -/
def addProfit (earned : Coin) : Action Unit := do
  let current ← amountOrZero (profit earned.denom)
  match current.checkedAdd earned.amount with
  | some total => setProfit ⟨earned.denom, total⟩
  | none => throw (.store (.profits earned.denom))

end Backrun.Ledger
