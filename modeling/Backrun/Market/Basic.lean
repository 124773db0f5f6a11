import Backrun.Market.Effect

/-!
# The market and the bank

What the engine asks of the pools and of the balances.  Any functions will do: the
engine takes no answer on trust.
-/

namespace Backrun

/-- Pools that quote and swap. -/
structure Market where
  /-- The family of a pool. -/
  poolType : PoolId → Inspection PoolType
  /-- What a hop would return for an input. -/
  quote : Hop → Amount → Inspection Amount
  /-- Swaps an input of the account and gives it the output. -/
  swap : Account → Hop → Amount → Effect Amount

/-- Balances of accounts. -/
structure Bank where
  /-- What an account holds of a denomination. -/
  balance : Account → Denom → View → Amount
  /-- Moves coins from the first account to the second. -/
  transfer : Account → Account → Coin → Effect Unit
  /-- Gives new coins to an account. -/
  mint : Account → Coin → Effect Unit
  /-- Takes coins out of the world. -/
  burn : Account → Coin → Effect Unit

end Backrun
