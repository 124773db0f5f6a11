import Backrun.Amount
import Backrun.Asset.Account
import Backrun.Asset.Coin
import Backrun.Asset.Denom
import Backrun.Budget.Basic
import Backrun.Budget.Ceilings
import Backrun.Budget.Cost
import Backrun.Codec.Basic
import Backrun.CommandLine.Answer
import Backrun.CommandLine.Arguments
import Backrun.Config.Basic
import Backrun.Config.FeeSchedule
import Backrun.Config.SearchParams
import Backrun.Config.Stored
import Backrun.Config.Weights
import Backrun.Cycle.Candidate
import Backrun.Cycle.Execution
import Backrun.Cycle.Liquidity
import Backrun.Cycle.Search
import Backrun.Cycle.Sizing
import Backrun.Decimal
import Backrun.Engine
import Backrun.Error
import Backrun.Genesis.Basic
import Backrun.Genesis.Checkpoint
import Backrun.Governance
import Backrun.Instant.Basic
import Backrun.Instant.Calendar
import Backrun.Instant.Text
import Backrun.Json.Basic
import Backrun.Json.Reader
import Backrun.Json.Writer
import Backrun.Ledger.Fees
import Backrun.Ledger.Profits
import Backrun.Ledger.Split
import Backrun.Main
import Backrun.Market.Basic
import Backrun.Market.Effect
import Backrun.Number.Binary64
import Backrun.Registry.BaseDenom
import Backrun.Registry.Pools
import Backrun.Registry.Routes
import Backrun.Route.Basic
import Backrun.Route.Hop
import Backrun.Route.Pair
import Backrun.Route.PoolType
import Backrun.Settings.Basic
import Backrun.Settings.Directory
import Backrun.Settings.EnvFile
import Backrun.Settings.Load
import Backrun.Simulation.Bank
import Backrun.Simulation.Bonus
import Backrun.Simulation.ConstantProduct
import Backrun.Simulation.Disturbance
import Backrun.Store.Action
import Backrun.Store.Basic
import Backrun.Store.KeyMap
import Backrun.Store.Keys
import Backrun.Text.Alphanumeric
import Backrun.Text.Blank
import Backrun.Text.Bytes
import Backrun.Text.Numeral
import Backrun.Toml.Basic
import Backrun.Toml.Reader
import Backrun.Toml.Scalar
import Backrun.Toml.Text
import Backrun.Proofs.Asset.Totals
import Backrun.Proofs.Budget.Blocks
import Backrun.Proofs.Budget.Budgeted
import Backrun.Proofs.Budget.Ceilings
import Backrun.Proofs.Budget.Cost
import Backrun.Proofs.Budget.Counting
import Backrun.Proofs.Codec.Decimals
import Backrun.Proofs.Codec.Records
import Backrun.Proofs.Codec.RoundTrips
import Backrun.Proofs.Codec.Settled
import Backrun.Proofs.Config.Schedules
import Backrun.Proofs.Config.Valid
import Backrun.Proofs.Cycle.Around
import Backrun.Proofs.Cycle.Exactness
import Backrun.Proofs.Cycle.Peaks
import Backrun.Proofs.Cycle.Proposals
import Backrun.Proofs.Cycle.Ranking
import Backrun.Proofs.Cycle.Recorded
import Backrun.Proofs.Cycle.Search
import Backrun.Proofs.Cycle.Sizing
import Backrun.Proofs.Cycle.Unpriced
import Backrun.Proofs.Engine.Accounting
import Backrun.Proofs.Engine.Attempts
import Backrun.Proofs.Engine.BaseLists
import Backrun.Proofs.Engine.Breakdowns
import Backrun.Proofs.Engine.Coherent
import Backrun.Proofs.Engine.Committed
import Backrun.Proofs.Engine.Decodable
import Backrun.Proofs.Engine.Gating
import Backrun.Proofs.Engine.Metering
import Backrun.Proofs.Engine.Operation
import Backrun.Proofs.Engine.PostTrade
import Backrun.Proofs.Engine.Progress
import Backrun.Proofs.Engine.Solvency
import Backrun.Proofs.Engine.Withdrawal
import Backrun.Proofs.Genesis.Atomic
import Backrun.Proofs.Genesis.Import
import Backrun.Proofs.Genesis.Ordered
import Backrun.Proofs.Genesis.Restart
import Backrun.Proofs.Genesis.Valid
import Backrun.Proofs.Governance
import Backrun.Proofs.Instant.Calendar
import Backrun.Proofs.Instant.Text
import Backrun.Proofs.Json.Written
import Backrun.Proofs.Ledger.Booked
import Backrun.Proofs.Ledger.Bookings
import Backrun.Proofs.Ledger.Credits
import Backrun.Proofs.Ledger.Rounding
import Backrun.Proofs.Ledger.Shares
import Backrun.Proofs.Ledger.Stranded
import Backrun.Proofs.Ledger.Totals
import Backrun.Proofs.Registry.Bases
import Backrun.Proofs.Registry.Catalogue
import Backrun.Proofs.Registry.Reading
import Backrun.Proofs.Registry.Registered
import Backrun.Proofs.Registry.Slots
import Backrun.Proofs.Route.Cycles
import Backrun.Proofs.Simulation.Balances
import Backrun.Proofs.Simulation.BonusCycles
import Backrun.Proofs.Simulation.Crossings
import Backrun.Proofs.Simulation.Cycles
import Backrun.Proofs.Simulation.ExactCycles
import Backrun.Proofs.Simulation.FaultFree
import Backrun.Proofs.Simulation.Generous
import Backrun.Proofs.Simulation.Modest
import Backrun.Proofs.Simulation.Outside
import Backrun.Proofs.Simulation.PoolSwaps
import Backrun.Proofs.Simulation.QuotedCycles
import Backrun.Proofs.Simulation.RoundTrip
import Backrun.Proofs.Simulation.SimpleCycles
import Backrun.Proofs.Simulation.Swaps
import Backrun.Proofs.Simulation.TwoPools
import Backrun.Proofs.Store.Actions
import Backrun.Proofs.Store.KeyMap
import Backrun.Proofs.Store.Keys
import Backrun.Proofs.Store.Order
import Backrun.Proofs.Store.Records
import Backrun.Proofs.Store.Snapshots
import Backrun.Proofs.Store.Views
import Backrun.Proofs.Text.Numeral
import Backrun.Proofs.Verdict
