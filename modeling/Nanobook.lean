import Nanobook.Replay
import Nanobook.Invariant.WellFormed
import Nanobook.BestPrice
import Nanobook.Cancel
import Nanobook.SelfTrade
import Nanobook.Refinement
import Nanobook.Agreement
import Nanobook.Termination
import Nanobook.Lifecycle
import Nanobook.Terminal
import Nanobook.Chronology
import Nanobook.Maintenance
import Nanobook.Oracle.Replay
import Nanobook.Rebalancer.Restart
import Nanobook.Rebalancer.Kill
import Nanobook.Lib.Keyed
import Nanobook.Rebalancer.Dangling
import Nanobook.Rebalancer.Reconcile
import Nanobook.Rebalancer.Carryover
import Nanobook.Lib.Program
import Nanobook.Rebalancer.Run
import Nanobook.Rebalancer.Numbering
import Nanobook.Rebalancer.Lines
import Nanobook.Rebalancer.Success
import Nanobook.Rebalancer.Completed
import Nanobook.Rebalancer.Acceptance
import Nanobook.Rebalancer.Window
import Nanobook.Rebalancer.OrderLoop
import Nanobook.Rebalancer.Attribution
import Nanobook.Rebalancer.Outcomes
import Nanobook.Rebalancer.Fills
import Nanobook.Lib.Bisect
import Nanobook.Lib.HashMap
import Nanobook.Portfolio.Arithmetic
import Nanobook.Portfolio.Position
import Nanobook.Portfolio.State
import Nanobook.Portfolio.Fill
import Nanobook.Portfolio.Rebalance
import Nanobook.Portfolio.Lob
import Nanobook.Portfolio.Cash
import Nanobook.Portfolio.LobAgreement
import Nanobook.Backtest.Stops
import Nanobook.Backtest.Bridge
import Nanobook.Lib.Steps
import Nanobook.Backtest.Run
import Nanobook.Backtest.Shapes
import Nanobook.Portfolio.Ledger
import Nanobook.Backtest.Ledger
import Nanobook.Backtest.LookAhead
import Nanobook.Backtest.Strategy
import Nanobook.Backtest.Unrecorded
import Nanobook.Backtest.Reconciliation
import Nanobook.Lib.Window
import Nanobook.Lib.Multiples
import Nanobook.Portfolio.Sizing
import Nanobook.Portfolio.Caps
import Nanobook.Portfolio.Pnl
import Nanobook.Portfolio.Affordable
import Nanobook.Portfolio.Executed
import Nanobook.Portfolio.OrderBounds
import Nanobook.Lib.Arrangement
import Nanobook.Portfolio.OrderIndependence
import Nanobook.Portfolio.Admission
import Nanobook.Portfolio.Binary64
import Nanobook.Portfolio.Equity
import Nanobook.Portfolio.Conservation
import Nanobook.Portfolio.Idempotence
import Nanobook.Backtest.Budgets
import Nanobook.Backtest.Exits
import Nanobook.Corpus.Reader
import Nanobook.Oracle.Reader
import Nanobook.Corpus.Schema
import Nanobook.Corpus.Language
import Nanobook.Broker.Binance
import Nanobook.Broker.Idempotency
import Nanobook.Depth
import Nanobook.TrailingStops
import Nanobook.Undisturbed
import Nanobook.Lib.WeightedMean
import Nanobook.Vwap
import Nanobook.Rebalancer.LimitPrice
import Nanobook.Rebalancer.TargetReached
import Nanobook.Lib.Framing
import Nanobook.Itch.Parser
import Nanobook.Itch.Drain
import Nanobook.Itch.Truncation
import Nanobook.Risk.Engine
import Nanobook.Risk.Agreement
import Nanobook.Risk.Pretrade
import Nanobook.Risk.Exposure
import Nanobook.Lib.Runs
import Nanobook.Backtest.Decompose
import Nanobook.Backtest.HoldingTime
import Nanobook.Backtest.RunningSums
import Nanobook.Lib.Dedup
import Nanobook.Broker.Ibkr
import Nanobook.Broker.Callbacks
import Nanobook.Broker.Endings
import Nanobook.Broker.LostConnection
import Nanobook.Broker.PartialFill
import Nanobook.Broker.Reconciliation
import Nanobook.Broker.FullQuantity
import Nanobook.Lib.Tracking
import Nanobook.Resting
import Nanobook.Itch.Conversion
import Nanobook.Itch.Slice
import Nanobook.Oracle.Writer
import Nanobook.Lib.Utf8
import Nanobook.Lib.Padding
import Nanobook.Broker.ClientOrderId
import Nanobook.Lib.Serde
import Nanobook.Symbol.Packed
import Nanobook.Symbol.Json
import Nanobook.Market
import Nanobook.Oracle.Resting
import Nanobook.Oracle.Refinement
import Nanobook.Oracle.Market
import Nanobook.Oracle.Agreement
import Nanobook.StopQueue
import Nanobook.MarketCancel
import Nanobook.Venue
import Nanobook.VenueRun
import Nanobook.Lib.Routing
import Nanobook.MultiExchange
import Nanobook.Lib.Dendrogram
import Nanobook.Lib.Scan
import Nanobook.Optimize.Clustering
import Nanobook.Optimize.Numbers
import Nanobook.Optimize.SingleLinkage
import Nanobook.Optimize.Weights
import Nanobook.Optimize.Bisection
import Nanobook.Lib.Simplex
import Nanobook.Optimize.Simplex
import Nanobook.Lib.Lines
import Nanobook.Persistence
import Nanobook.Lib.Panel
import Nanobook.Indicators.Numbers
import Nanobook.Indicators.Averages
import Nanobook.Indicators.Wilder
import Nanobook.Indicators.Bands
import Nanobook.Lib.Objects
import Nanobook.Rebalancer.AuditFile
import Nanobook.Ranks
import Nanobook.Portfolio.Drawdowns
