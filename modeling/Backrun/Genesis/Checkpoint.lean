import Backrun.Genesis.Basic
import Backrun.Ledger.Fees

/-!
# Import and export

A valid document becomes the records of a store, and the records become a
document again.  An export lists every entity in key order.
-/

namespace Backrun.Genesis

/-- Registers the routes of every pair. -/
def importRoutes (mostHops : UInt64) (entries : List PairRoutes) : Action Unit :=
  entries.forM fun e => Registry.setRoutes e.pair.tokenA e.pair.tokenB e.routes mostHops

/-- Stores a valid document. -/
def store (g : Genesis) : Action Unit := do
  g.validate.mapError Error.invalidConfig
  saveConfig g.config
  Budget.saveCounter g.counter
  Ledger.setGenesisTime g.time
  importRoutes g.config.search.mostHops g.routes
  if ¬ g.bases.isEmpty then
    Registry.setBaseDenoms g.bases
  g.pools.forM fun e => Registry.setPool e.base e.counter e.poolId
  g.fees.forM Ledger.setFees
  Ledger.setTrades g.trades
  g.profits.forM Ledger.setProfit

/-- The document of everything that is stored. -/
def stored : Query Genesis := do
  let config ← storedConfig
  let routes ← Registry.allRoutes
  let bases ← Registry.baseDenoms
  let pools ← Registry.allPools
  let fees ← Ledger.allFees
  let counter ← Budget.counter
  let time ← Ledger.genesisTime
  let trades ← Ledger.trades
  let profits ← Ledger.allProfits
  return { config, routes, bases, pools, fees, counter, time, trades, profits }

end Backrun.Genesis
