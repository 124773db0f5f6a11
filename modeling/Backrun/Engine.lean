import Backrun.Cycle.Execution
import Backrun.Cycle.Search
import Backrun.Genesis.Checkpoint
import Backrun.Governance

/-!
# The engine

After every ordinary trade the engine may execute one cycle that earns from the
imbalance the trade has left.  It never fails towards the trade: whatever goes
wrong becomes an outcome.
-/

namespace Backrun

/-- An engine among its pools, balances and accounts. -/
structure Engine where
  market : Market
  bank : Bank
  /-- Holds borrowed inputs during a cycle and every booked profit. -/
  vault : Account
  /-- Governs while there is no admin. -/
  authority : Account

/-- What happens after a trade. -/
inductive PostTrade where
  | disabled
  | noRoutes
  | budgetExceeded
  | notProfitable
  | executed (trade : Trade)
  /-- The attempt was given up. -/
  | failed (error : Error)
  deriving DecidableEq, Repr

namespace PostTrade

/-- An outcome for what an attempt comes to. -/
def ofAttempt : Except Error PostTrade → PostTrade
  | .ok outcome => outcome
  | .error (.budgetExceeded _ _) => .budgetExceeded
  | .error e => .failed e

end PostTrade

namespace Engine

/-- Searches and executes at most one cycle. The count of points starts anew at a new
height, whatever comes of the search. -/
def attempt (e : Engine) (block : Block) (trade : Hop) : Action PostTrade := do
  let config ← storedConfig
  if ¬ config.enabled then return .disabled
  let _ ← Budget.beginBlock block.height
  match ← Search.run config e.market trade with
  | .disabled => return .disabled
  | .budgetExhausted => return .budgetExceeded
  | .noRoutes => return .noRoutes
  | .notProfitable => return .notProfitable
  | .found best => return .executed (← best.execute e.market e.bank e.vault block)

/-- What happens after a trade, and the store that it leaves. -/
def postTrade (e : Engine) (block : Block) (trade : Hop) (s : Store) : PostTrade × Store :=
  let (attempted, t) := (e.attempt block trade).perform s
  (.ofAttempt attempted, t)

/-- Pays every fee to the developer, or none. -/
def withdrawFees (e : Engine) (caller : Account) : Action (List Coin) :=
  Ledger.withdrawFees e.bank e.vault caller

end Engine

end Backrun
