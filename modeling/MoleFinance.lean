import MoleFinance.Lib.Call
import MoleFinance.Lib.OrdMap
import MoleFinance.Lib.ProRata
import MoleFinance.Lib.Borsh
import MoleFinance.Lib.Trace
import MoleFinance.Lib.Local
import MoleFinance.Lib.Lease
import MoleFinance.Lib.Queue
import MoleFinance.MoleMath
import MoleFinance.MulDiv
import MoleFinance.Types
import MoleFinance.Dormant.Store
import MoleFinance.Dormant.Replay
import MoleFinance.Dormant.Distribute
import MoleFinance.Dormant.Mutate
import MoleFinance.Dormant.Pending
import MoleFinance.Dormant.Book
import MoleFinance.Dormant.Worth
import MoleFinance.Dormant.Fairness
import MoleFinance.Dormant.Equivalence
import MoleFinance.Dormant.Holdings
import MoleFinance.Dormant.Frame
import MoleFinance.Dormant.Claims
import MoleFinance.Dormant.EagerStore
import MoleFinance.Market
import MoleFinance.Engine.Sync
import MoleFinance.Engine.Operations
import MoleFinance.Engine.Accounting
import MoleFinance.Engine.Frame
import MoleFinance.Engine.Stock
import MoleFinance.Engine.CatchUp
import MoleFinance.Engine.Events
import MoleFinance.Engine.Stores
import MoleFinance.Engine.Stream
import MoleFinance.Engine.Dilution
import MoleFinance.Engine.Bare
import MoleFinance.Engine.World
import MoleFinance.Engine.Attribution
import MoleFinance.Engine.Aggregates
import MoleFinance.Engine.Invariant
import MoleFinance.Engine.Exit
import MoleFinance.Engine.Ring
import MoleFinance.Engine.Totality
import MoleFinance.Engine.Eager
import MoleFinance.Engine.Holders
import MoleFinance.Host.Harness
import MoleFinance.Host.Conservation
import MoleFinance.Indexer.State
import MoleFinance.Indexer.Replay
import MoleFinance.Indexer.Isolation
import MoleFinance.Indexer.Streams
import MoleFinance.Indexer.Records
import MoleFinance.Indexer.Queries
import MoleFinance.Indexer.Reports
import MoleFinance.Indexer.Mirror
import MoleFinance.Indexer.Events
import MoleFinance.Indexer.Parity
import MoleFinance.Lib.Slots
import MoleFinance.Chain.Layout
import MoleFinance.Chain.Accounts
import MoleFinance.Chain.Bridge
import MoleFinance.Chain.Packing
import MoleFinance.Chain.RoundTrip
import MoleFinance.Chain.Image
import MoleFinance.Chain.Program
import MoleFinance.Chain.Instructions
import MoleFinance.Chain.Effect
import MoleFinance.Chain.Supply
import MoleFinance.Chain.Invariant
import MoleFinance.Chain.Intact
import MoleFinance.Chain.Pause
import MoleFinance.Chain.Caps
import MoleFinance.Chain.Pricing
import MoleFinance.Chain.PriceFeed
import MoleFinance.Chain.Coverage
import MoleFinance.Chain.Persist
import MoleFinance.Chain.Custody
import MoleFinance.Chain.Unbridged
import MoleFinance.Engine.Forgetting
import MoleFinance.Engine.BothModes
import MoleFinance.Chain.Memory
import MoleFinance.Keeper.LeaderLock
import MoleFinance.Keeper.Handlers
import MoleFinance.Keeper.RunLoop
import MoleFinance.Keeper.Decoder
import MoleFinance.Keeper.Snapshot
import MoleFinance.Keeper.FreeLock
import MoleFinance.Chain.Counts
import MoleFinance.Chain.Governance
import MoleFinance.Keeper.Scheduler
import MoleFinance.Keeper.Executor
import MoleFinance.Keeper.PreSync
import MoleFinance.Runtime.Accounts
import MoleFinance.Runtime.WriteBack
import MoleFinance.Runtime.Handlers
import MoleFinance.Runtime.Atomic
import MoleFinance.Runtime.Modes
import MoleFinance.Runtime.ReadBack
import MoleFinance.Host.Housing
import MoleFinance.Runtime.Parallel
import MoleFinance.Runtime.HarnessParity
import MoleFinance.Host.Checks
import MoleFinance.Runtime.Writes
import MoleFinance.Runtime.Reach
import MoleFinance.Runtime.Decomposition
import MoleFinance.Runtime.Upkeep
import MoleFinance.Lib.Descent
import MoleFinance.Keeper.Predictor
import MoleFinance.Keeper.Hints
import MoleFinance.Keeper.Bot
import MoleFinance.Keeper.MultiMarket
import MoleFinance.Keeper.MirrorView
import MoleFinance.Keeper.Convergence
import MoleFinance.Lib.Chars
import MoleFinance.Lib.Radix
import MoleFinance.Registry.Base58
import MoleFinance.Registry.Template
import MoleFinance.Registry.Tables
import MoleFinance.Registry.Load
import MoleFinance.Registry.Render
import MoleFinance.Registry.Join
import MoleFinance.Simulation.Oracle
import MoleFinance.Simulation.Settlement
import MoleFinance.Simulation.Drift
import MoleFinance.Simulation.Equivalence
