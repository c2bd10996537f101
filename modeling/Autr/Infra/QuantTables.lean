import Autr.Infra.QuantStore
import Autr.Store.Batches
import Autr.Surd

namespace Autr.Infra.QuantTables

open QuantStore Store

structure TickerRow where
  symbol : String
  marketType : String
  ts : ℤ
  lastPrice : Option ℚ
  markPrice : Option ℚ
  indexPrice : Option ℚ
  bid1 : Option ℚ
  ask1 : Option ℚ
  bid1Size : Option ℚ
  ask1Size : Option ℚ
  openInterest : Option ℚ
  fundingRate : Option ℚ
  rawJson : String

def TickerRow.key (r : TickerRow) : String × String × ℤ := (r.symbol, r.marketType, r.ts)

structure OrderbookTop where
  symbol : String
  marketType : String
  ts : ℤ
  bidPrice : Option ℚ
  bidSize : Option ℚ
  askPrice : Option ℚ
  askSize : Option ℚ
  spread : Option ℚ
  midPrice : Option ℚ
  imbalance : Option ℚ

def OrderbookTop.key (r : OrderbookTop) : String × String × ℤ := (r.symbol, r.marketType, r.ts)

structure PublicTrade where
  symbol : String
  marketType : String
  tradeId : String
  ts : ℤ
  side : Option String
  price : Option ℚ
  size : Option ℚ
  rawJson : String

def PublicTrade.key (r : PublicTrade) : String × String × String := (r.symbol, r.marketType, r.tradeId)

structure FundingRate where
  symbol : String
  ts : ℤ
  fundingRate : Option ℚ
  markPrice : Option ℚ
  rawJson : String

def FundingRate.key (r : FundingRate) : String × ℤ := (r.symbol, r.ts)

structure OpenInterest where
  symbol : String
  intervalTime : String
  ts : ℤ
  openInterest : Option ℚ
  rawJson : String

def OpenInterest.key (r : OpenInterest) : String × String × ℤ := (r.symbol, r.intervalTime, r.ts)

/-- The columns of `feature_bar` that are computed. -/
structure Features where
  close : ℚ
  ret1 : ℚ
  retLog1 : ℚ
  vol20 : Surd
  atr14 : ℚ
  emaFast50 : ℚ
  emaSlow200 : ℚ
  trendGapPct : ℚ
  zscore50 : Surd
  deriving DecidableEq

structure FeatureBar where
  key : CandleKey
  features : Features

inductive RunStatus
  | running
  | success
  | error
  deriving DecidableEq

/-- A row of `pipeline_runs`, without its times. -/
structure PipelineRun where
  runId : ℕ
  status : RunStatus
  message : String
  deriving DecidableEq

structure QuantDb where
  rawOhlcv : RawOhlcv
  rawTicker : Table TickerRow.key
  rawOrderbookTop : Table OrderbookTop.key
  rawPublicTrades : Table PublicTrade.key
  rawFundingRates : Table FundingRate.key
  rawOpenInterest : Table OpenInterest.key
  featureBar : Table FeatureBar.key
  pipelineRuns : List PipelineRun
  lastRunId : ℕ

/-- The rows that `insert_many` is given with the statement for their table. -/
inductive Rows
  | rawOhlcv (rows : List Candle)
  | rawTicker (rows : List TickerRow)
  | rawOrderbookTop (rows : List OrderbookTop)
  | rawPublicTrades (rows : List PublicTrade)
  | rawFundingRates (rows : List FundingRate)
  | rawOpenInterest (rows : List OpenInterest)
  | featureBar (rows : List FeatureBar)

/-- The lines of the statement of a table. -/
def Rows.sqlLines : Rows → List (List Char)
  | .rawOhlcv _ => collectOhlcvLines
  | .rawTicker _ =>
      ["\n                INSERT OR REPLACE INTO raw_ticker".toList,
       "\n                (symbol, market_type, ts, last_price, mark_price, index_price, bid1, ask1, bid1_size,".toList,
       " ask1_size, open_interest, funding_rate, raw_json)".toList,
       "\n                VALUES (:symbol, :market_type, :ts, :last_price, :mark_price, :index_price, :bid1,".toList,
       " :ask1, :bid1_size, :ask1_size, :open_interest, :funding_rate, :raw_json)".toList,
       "\n                ".toList]
  | .rawOrderbookTop _ =>
      ["\n            INSERT OR REPLACE INTO raw_orderbook_top".toList,
       "\n            (symbol, market_type, ts, bid_price, bid_size, ask_price, ask_size, spread, mid_price,".toList,
       " imbalance)".toList,
       "\n            VALUES (:symbol, :market_type, :ts, :bid_price, :bid_size, :ask_price, :ask_size,".toList,
       " :spread, :mid_price, :imbalance)".toList,
       "\n            ".toList]
  | .rawPublicTrades _ =>
      ["\n            INSERT OR REPLACE INTO raw_public_trades".toList,
       "\n            (symbol, market_type, trade_id, ts, side, price, size, raw_json)".toList,
       "\n            VALUES (:symbol, :market_type, :trade_id, :ts, :side, :price, :size, :raw_json)".toList,
       "\n            ".toList]
  | .rawFundingRates _ =>
      ["\n                    INSERT OR REPLACE INTO raw_funding_rates".toList,
       "\n                    (symbol, ts, funding_rate, mark_price, raw_json)".toList,
       "\n                    VALUES (:symbol, :ts, :funding_rate, :mark_price, :raw_json)".toList,
       "\n                    ".toList]
  | .rawOpenInterest _ =>
      ["\n                    INSERT OR REPLACE INTO raw_open_interest".toList,
       "\n                    (symbol, interval_time, ts, open_interest, raw_json)".toList,
       "\n                    VALUES (:symbol, :interval_time, :ts, :open_interest, :raw_json)".toList,
       "\n                    ".toList]
  | .featureBar _ =>
      ["\n            INSERT OR REPLACE INTO feature_bar".toList,
       "\n            (symbol, market_type, timeframe, ts, close, ret_1, ret_log_1, vol_20, atr_14, ema_fast_50,".toList,
       " ema_slow_200, trend_gap_pct, zscore_50)".toList,
       "\n            VALUES (:symbol, :market_type, :timeframe, :ts, :close, :ret_1, :ret_log_1, :vol_20,".toList,
       " :atr_14, :ema_fast_50, :ema_slow_200, :trend_gap_pct, :zscore_50)".toList,
       "\n            ".toList]

def Rows.sql (rows : Rows) : List Char := rows.sqlLines.flatten

inductive Backend
  | sqlite
  | postgres
  deriving DecidableEq

/-- The text that the store of a backend executes. -/
def Backend.sent (backend : Backend) (sql : List Char) : List Char :=
  match backend with
  | .sqlite => sql
  | .postgres => pgSql sql

section Insert

variable {α κ : Type} [DecidableEq κ] {key : α → κ}

def insertRow : OnConflict → Table key → α → Option (Table key)
  | .replace, T, r => some (T.replace r)
  | .doNothing, T, r => some (T.keep r)
  | .abort, T, r => T.insert r

/-- A failing statement undoes the whole batch. -/
def executeMany (sql : List Char) (rows : List α) (T : Table key) : Table key :=
  (rows.foldlM (insertRow (onConflict sql)) T).getD T

end Insert

def Rows.isEmpty : Rows → Bool
  | .rawOhlcv rows => rows.isEmpty
  | .rawTicker rows => rows.isEmpty
  | .rawOrderbookTop rows => rows.isEmpty
  | .rawPublicTrades rows => rows.isEmpty
  | .rawFundingRates rows => rows.isEmpty
  | .rawOpenInterest rows => rows.isEmpty
  | .featureBar rows => rows.isEmpty

def insertMany (backend : Backend) (rows : Rows) (db : QuantDb) : QuantDb :=
  let sql := backend.sent rows.sql
  match rows with
  | .rawOhlcv rows => { db with rawOhlcv := executeMany sql rows db.rawOhlcv }
  | .rawTicker rows => { db with rawTicker := executeMany sql rows db.rawTicker }
  | .rawOrderbookTop rows => { db with rawOrderbookTop := executeMany sql rows db.rawOrderbookTop }
  | .rawPublicTrades rows => { db with rawPublicTrades := executeMany sql rows db.rawPublicTrades }
  | .rawFundingRates rows => { db with rawFundingRates := executeMany sql rows db.rawFundingRates }
  | .rawOpenInterest rows => { db with rawOpenInterest := executeMany sql rows db.rawOpenInterest }
  | .featureBar rows => { db with featureBar := executeMany sql rows db.featureBar }

/-- The row that `start_run` inserts has the next id. -/
def startRun (db : QuantDb) : ℕ × QuantDb :=
  let runId := db.lastRunId + 1
  (runId, { db with pipelineRuns := db.pipelineRuns ++ [⟨runId, .running, "started"⟩], lastRunId := runId })

def endRun (runId : ℕ) (status : RunStatus) (message : String) (db : QuantDb) : QuantDb :=
  { db with pipelineRuns := db.pipelineRuns.map (fun r => if r.runId = runId then ⟨r.runId, status, message⟩ else r) }

/-- What each statement does with a taken key, as it is written and as it is sent on. -/
theorem onConflict_sent (rows : Rows) :
    onConflict (Backend.sqlite.sent rows.sql) = .replace ∧
      onConflict (Backend.postgres.sent rows.sql) = .doNothing := by
  cases rows with
  | rawOhlcv => exact ⟨onConflict_collect, onConflict_pgSql_collect⟩
  | rawTicker | rawOrderbookTop | rawPublicTrades | rawFundingRates | rawOpenInterest | featureBar =>
      constructor <;> rw [Backend.sent, Rows.sql, Rows.sqlLines] <;> repeat rw [String.toList_ofList]
      all_goals decide +kernel

section Written

variable {α κ : Type} [DecidableEq κ] {key : α → κ}

theorem executeMany_replace {sql : List Char} (h : onConflict sql = .replace) (rows : List α) (T : Table key) :
    executeMany sql rows T = rows.foldl Table.replace T := by
  have hfold : ∀ T : Table key, rows.foldlM (insertRow .replace) T = some (rows.foldl Table.replace T) := by
    induction rows with
    | nil => exact fun _ => rfl
    | cons r rows ih => exact fun T => ih (T.replace r)
  rw [executeMany, h, hfold, Option.getD_some]

theorem executeMany_keep {sql : List Char} (h : onConflict sql = .doNothing) (rows : List α) (T : Table key) :
    executeMany sql rows T = rows.foldl Table.keep T := by
  have hfold : ∀ T : Table key, rows.foldlM (insertRow .doNothing) T = some (rows.foldl Table.keep T) := by
    induction rows with
    | nil => exact fun _ => rfl
    | cons r rows ih => exact fun T => ih (T.keep r)
  rw [executeMany, h, hfold, Option.getD_some]

/-- Whatever a statement does with taken keys, its rows are the ones that are new. -/
theorem batch_executeMany {sql : List Char} (h : onConflict sql = .replace ∨ onConflict sql = .doNothing)
    (rows : List α) (T : Table key) : Batch rows T (executeMany sql rows T) := by
  rcases h with h | h
  · rw [executeMany_replace h]
    exact batch_foldl batch_replace rows T
  · rw [executeMany_keep h]
    exact batch_foldl batch_keep rows T

end Written

section Tables

variable (backend : Backend) (rows : Rows) (db : QuantDb)

theorem sent_onConflict :
    onConflict (backend.sent rows.sql) = .replace ∨ onConflict (backend.sent rows.sql) = .doNothing := by
  cases backend with
  | sqlite => exact .inl (onConflict_sent rows).1
  | postgres => exact .inr (onConflict_sent rows).2

def Rows.candles : Rows → List Candle
  | .rawOhlcv rows => rows
  | _ => []

def Rows.featureBars : Rows → List FeatureBar
  | .featureBar rows => rows
  | _ => []

theorem batch_rawOhlcv : Batch rows.candles db.rawOhlcv (insertMany backend rows db).rawOhlcv := by
  cases rows with
  | rawOhlcv candles => exact batch_executeMany (sent_onConflict backend (.rawOhlcv candles)) candles _
  | _ => exact Batch.refl _ _

theorem batch_featureBar : Batch rows.featureBars db.featureBar (insertMany backend rows db).featureBar := by
  cases rows with
  | featureBar bars => exact batch_executeMany (sent_onConflict backend (.featureBar bars)) bars _
  | _ => exact Batch.refl _ _

theorem insertMany_pipelineRuns : (insertMany backend rows db).pipelineRuns = db.pipelineRuns ∧
    (insertMany backend rows db).lastRunId = db.lastRunId := by
  cases rows <;> exact ⟨rfl, rfl⟩

/-- A candle once stored in Postgres stays as it is. -/
theorem mem_rawOhlcv_postgres {r : Candle} (hr : r ∈ db.rawOhlcv.rows) :
    r ∈ (insertMany .postgres rows db).rawOhlcv.rows := by
  cases rows with
  | rawOhlcv candles =>
      change r ∈ (executeMany _ candles db.rawOhlcv).rows
      rw [executeMany_keep (onConflict_sent (.rawOhlcv candles)).2]
      exact mem_foldl_keep hr candles
  | _ => exact hr

end Tables

end Autr.Infra.QuantTables
