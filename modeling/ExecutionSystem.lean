import ExecutionSystem.AllowedQuantity
import ExecutionSystem.AttributionRows
import ExecutionSystem.BarBuilder
import ExecutionSystem.BarFile
import ExecutionSystem.BookRecovery
import ExecutionSystem.Breakout
import ExecutionSystem.BrokerAdapter
import ExecutionSystem.BrokerSession
import ExecutionSystem.Calendar
import ExecutionSystem.ChainFields
import ExecutionSystem.ChainFills
import ExecutionSystem.CleanReport
import ExecutionSystem.Clock
import ExecutionSystem.CommandQueue
import ExecutionSystem.Commissions
import ExecutionSystem.ContractSelection
import ExecutionSystem.Cooldown
import ExecutionSystem.DashboardBook
import ExecutionSystem.EmaReplay
import ExecutionSystem.EventLog
import ExecutionSystem.EventLoop
import ExecutionSystem.EventQueries
import ExecutionSystem.ExecutionQuality
import ExecutionSystem.Executions
import ExecutionSystem.ExitFills
import ExecutionSystem.ExitIntents
import ExecutionSystem.ExitManager
import ExecutionSystem.ExitRules
import ExecutionSystem.ExposureLimits
import ExecutionSystem.FifoAgreement
import ExecutionSystem.FifoLots
import ExecutionSystem.FiveEma
import ExecutionSystem.FlatRows
import ExecutionSystem.FlattenLatch
import ExecutionSystem.FloatingPoint
import ExecutionSystem.HardCancel
import ExecutionSystem.InsertionDict
import ExecutionSystem.IsoTime
import ExecutionSystem.Json
import ExecutionSystem.LegCoordination
import ExecutionSystem.LimitPrices
import ExecutionSystem.ListFacts
import ExecutionSystem.LiveReplay
import ExecutionSystem.LiveTrading
import ExecutionSystem.LockProvenance
import ExecutionSystem.LogAnalytics
import ExecutionSystem.LossLimits
import ExecutionSystem.Machine
import ExecutionSystem.MainLoop
import ExecutionSystem.ManualFlatten
import ExecutionSystem.MarketUpdate
import ExecutionSystem.MockBroker
import ExecutionSystem.MockPositions
import ExecutionSystem.Models
import ExecutionSystem.NetQuantity
import ExecutionSystem.OpposingOrders
import ExecutionSystem.OrderLifecycle
import ExecutionSystem.OrderManager
import ExecutionSystem.OrderSteps
import ExecutionSystem.OverrideFile
import ExecutionSystem.ParamValidity
import ExecutionSystem.Persistence
import ExecutionSystem.PnlSummaries
import ExecutionSystem.PositionGuard
import ExecutionSystem.PositionManager
import ExecutionSystem.PositionStore
import ExecutionSystem.ProfitAndLoss
import ExecutionSystem.ProtectMode
import ExecutionSystem.PythonData
import ExecutionSystem.PythonFloat
import ExecutionSystem.QuoteKeys
import ExecutionSystem.Quotes
import ExecutionSystem.Reconciliation
import ExecutionSystem.ReplacementChain
import ExecutionSystem.RepriceBounds
import ExecutionSystem.Retirement
import ExecutionSystem.RiskCaution
import ExecutionSystem.RiskEngine
import ExecutionSystem.Rounding
import ExecutionSystem.Runner
import ExecutionSystem.RunnerBlocks
import ExecutionSystem.RunnerSettings
import ExecutionSystem.RunnerSteps
import ExecutionSystem.Sampling
import ExecutionSystem.Seeding
import ExecutionSystem.ShadowReplay
import ExecutionSystem.ShortStraddle
import ExecutionSystem.Shutdown
import ExecutionSystem.SignalDiscipline
import ExecutionSystem.StableSort
import ExecutionSystem.StaleRows
import ExecutionSystem.StopSession
import ExecutionSystem.StrategyParams
import ExecutionSystem.Subscriptions
import ExecutionSystem.SymbolMatch
import ExecutionSystem.TerminalStatus
import ExecutionSystem.TickPrices
import ExecutionSystem.TradeRecord
import ExecutionSystem.TradedToday
import ExecutionSystem.TradingSession
import ExecutionSystem.TrailingFloor
import ExecutionSystem.Transactions
import ExecutionSystem.TriggerFreshness
import ExecutionSystem.WaitUntilFlat
import ExecutionSystem.WorkingOrders
import ExecutionSystem.WriteBehind
