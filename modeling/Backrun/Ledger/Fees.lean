import Backrun.Config.Stored
import Backrun.Instant.Text
import Backrun.Ledger.Profits
import Backrun.Ledger.Split
import Backrun.Market.Basic

/-!
# Developer fees

Of every profit the developer's share is credited to a ledger, from which the
developer withdraws.  What the ledger does not claim is the treasury's; no funds
move when a profit is booked.
-/

namespace Backrun.Ledger

/-! ## The age of the module -/

/-- The time at which the module began. -/
def genesisTime : Query Instant := Query.load Key.genesisTime .genesisTime

/-- Writes the time at which the module began. -/
def setGenesisTime (time : Instant) : Action Unit := Action.save Key.genesisTime time

/-- The whole days since the module began, zero before it did. -/
def daysSinceGenesis (now : Instant) : Query Nat := do
  let genesis ← genesisTime
  return now.daysSince genesis

/-! ## The ledger -/

/-- What the developer may withdraw of a denomination. -/
def fees (d : Denom) : Query Coin := Query.load (Key.developerFees d) (.developerFees d)

/-- What the developer may withdraw. -/
def allFees : Query (List Coin) := Query.loadAll Key.allDeveloperFees

/-- Writes what the developer may withdraw of a denomination. -/
def setFees (total : Coin) : Action Unit := Action.save (Key.developerFees total.denom) total

/-- Credits the developer. -/
def addFees (earned : Coin) : Action Unit := do
  let current ← amountOrZero (fees earned.denom)
  match current.checkedAdd earned.amount with
  | some total => setFees ⟨earned.denom, total⟩
  | none => throw (.store (.developerFees earned.denom))

/-- Books a profit that the vault already holds: the developer's share by the age of
the module, then the whole. This is what an engine does on days whose share has basis
points, as every day of a valid schedule has; on any other it stops before it writes. -/
def book (now : Instant) (profit : Coin) : Action ProfitSplit := do
  let config ← storedConfig
  let days ← daysSinceGenesis now
  let split := profit.split (config.schedule.basisPoints days)
  if split.developer.amount ≠ 0 then
    addFees split.developer
  addProfit profit
  return split

/-! ## Withdrawal -/

/-- Accepts the developer of a configuration. -/
def authorizeDeveloper (config : EngineConfig) (caller : Account) : Except Error Unit :=
  match config.developer with
  | some developer =>
      if developer = caller then .ok () else .error (.unauthorized (.notDeveloper caller))
  | none => .error (.unauthorized .noDeveloper)

/-- Pays out every fee from the vault to the developer and clears the ledger. Transfers
that were made stay when a later one is refused. -/
def payFees (bank : Bank) (vault caller : Account) : Action (List Coin) := do
  let config ← storedConfig
  authorizeDeveloper config caller
  let recorded ← allFees
  let due := recorded.filter fun c => c.amount != 0
  due.forM fun c =>
    Action.call (bank.transfer vault caller c) fun fault => .executionFailure (.withdrawal fault)
  Action.deleteUnder Key.allDeveloperFees
  return due

/-- Pays out every fee, or none. -/
def withdrawFees (bank : Bank) (vault caller : Account) : Action (List Coin) :=
  (payFees bank vault caller).atomically

end Backrun.Ledger
