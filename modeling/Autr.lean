import Autr.Infra.CandleStores
import Autr.Infra.Queues
import Autr.Infra.OrderAttempts
import Autr.Services.SignalOnce
import Autr.Services.Reconcile
import Autr.Services.ShortBound
import Autr.Services.HedgeLegs
import Autr.Services.SharedAccount
import Autr.Services.PositionFlag
import Autr.Infra.PositionRows
import Autr.Async.Tape
import Autr.Positions.ReportedFailure
import Autr.Positions.DoubleClose
import Autr.Services.ExecutorConsumer
import Autr.Services.NoticeFailure
import Autr.Services.Bookkeeping
import Autr.Services.SignalPipeline
import Autr.Services.TradingStop
import Autr.Services.CandleOrders
import Autr.Services.RowExclusion
import Autr.Services.SignalAlternation
import Autr.Services.HeldStop
import Autr.Services.Cooldown
import Autr.Services.StrategyPresets
import Autr.Services.StrategySwitch
import Autr.Services.PublishedStrategy
import Autr.Services.ReconcileError
import Autr.Services.SoldQuantity
import Autr.Positions.QuotedPrice
import Autr.Strategies.FundingChurn
import Autr.Services.UnchangedCandle
import Autr.Services.StopRatchet
import Autr.Infra.OrderSize
import Autr.Domain.AdxBounds
import Autr.Domain.RegimeDirection
import Autr.Domain.RegimeScale
import Autr.Strategies.NewestRow
import Autr.Services.DualPaths
import Autr.Infra.LazyExpiry
import Autr.Services.Watchdog
import Autr.Strategies.PresetAttributes
import Autr.Infra.CostBasis
import Autr.Infra.PositionSummary
import Autr.Api.Portfolio
import Autr.Positions.PriceAtomicity
import Autr.Api.TradingControl
import Autr.Collection.FeatureScale
import Autr.Collection.StoredFeatures
import Autr.Collection.PipelineRuns
import Autr.Collection.PublishedTicks
import Autr.Positions.TradeLinks
import Autr.Positions.RealizedPnl
import Autr.Infra.OrderGuard
import Autr.Strategies.LoopBooks
import Autr.Services.Heartbeats
import Autr.Services.ArbOrders
import Autr.Api.SavedParams
import Autr.Domain.RegimeBounds
import Autr.Services.PositionStates
import Autr.Strategies.DecisionUnits
import Autr.Strategies.LoopUnits
