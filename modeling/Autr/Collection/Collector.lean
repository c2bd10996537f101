import Autr.Async.Protocol
import Autr.Collection.FeatureBars

namespace Autr.Collection.Collector

open Async Infra.QuantStore Infra.QuantTables Store

/-- An object of the exchange's JSON, as `get` reads it; a scalar is its text. -/
abbrev Record := String → Option String

/-- What the language makes of the collected texts. -/
structure Conversions where
  int : String → Option ℤ
  float : String → Option ℚ
  dumps : Record → String
  log : ℚ → ℚ

/-- Nothing stands for a result that cannot be read out of the response. -/
structure Response (α : Type) where
  retCode : Option ℤ
  result : Option α

structure Orderbook where
  b : Option (List (List String)) := none
  a : Option (List (List String)) := none
  ts : Option String := none

/-- The message that `_latest_tick` makes of a row. -/
structure Tick where
  symbol : String
  ts : ℤ
  values : Ohlcv
  deriving DecidableEq

inductive Op
  | nowMs
  | getTickers (category symbol : String)
  | getOrderbook (category symbol : String)
  | getPublicTradeHistory (category symbol : String)
  | getFundingRateHistory (symbol : String)
  | getOpenInterest (symbol : String)
  | getKline (symbol interval : String)
  | insertMany (rows : Rows)
  | fetchOhlcv (symbol marketType timeframe : String) (limit : ℕ)
  | startRun
  | gather (cycle : ℕ)
  | endRun (runId : ℕ) (status : RunStatus) (message : String)
  | queuePush (tick : Tick)
  | setHeartbeat

abbrev Op.Res : Op → Type
  | .nowMs => ℤ
  | .getTickers .. | .getPublicTradeHistory .. | .getFundingRateHistory _ | .getOpenInterest _ => Response (List Record)
  | .getOrderbook .. => Response Orderbook
  | .getKline .. => Response (List (List String))
  | .fetchOhlcv .. => List (ℤ × Ohlcv)
  | .startRun => ℕ
  | .insertMany _ | .gather _ | .endRun .. | .queuePush _ | .setHeartbeat => Unit

abbrev Work := Prog Op Op.Res String

abbrev await (op : Op) : Work op.Res := Prog.perform op

/-- A try statement that logs what it catches. -/
def swallow (p : Work Unit) : Work Unit := p.attempt (fun _ => return ())

/-- What a loop has appended when it ends or an item raises. -/
def appended {α β : Type} (f : α → Option β) : List α → List β
  | [] => []
  | a :: as => match f a with
    | none => []
    | some b => b :: appended f as

/-- A chain of `or`. -/
def firstTruthy (texts : List (Option String)) : Option String :=
  texts.findSome? (fun text => text.filter (· ≠ ""))

/-- A number that is neither missing nor zero. -/
def truthy (x : Option ℚ) : Option ℚ := x.filter (· ≠ 0)

section Rows

variable (py : Conversions) (symbol : String)

def Conversions.f (v : Option String) : Option ℚ := v.bind py.float

def spotRow (nowMs : ℤ) (t : Record) : TickerRow where
  symbol := symbol
  marketType := "spot"
  ts := nowMs
  lastPrice := py.f (t "lastPrice")
  markPrice := none
  indexPrice := none
  bid1 := py.f (t "bid1Price")
  ask1 := py.f (t "ask1Price")
  bid1Size := py.f (t "bid1Size")
  ask1Size := py.f (t "ask1Size")
  openInterest := none
  fundingRate := none
  rawJson := py.dumps t

def linearRow (nowMs : ℤ) (t : Record) : TickerRow where
  symbol := symbol
  marketType := "linear"
  ts := nowMs
  lastPrice := py.f (t "lastPrice")
  markPrice := py.f (t "markPrice")
  indexPrice := py.f (t "indexPrice")
  bid1 := py.f (t "bid1Price")
  ask1 := py.f (t "ask1Price")
  bid1Size := py.f (t "bid1Size")
  ask1Size := py.f (t "ask1Size")
  openInterest := py.f (t "openInterest")
  fundingRate := py.f (t "fundingRate")
  rawJson := py.dumps t

/-- The row of a ticker response, if it has one; nothing stands for a `KeyError`. -/
def tickerRows (row : Record → TickerRow) (resp : Response (List Record)) : Option (List TickerRow) :=
  if resp.retCode = some 0 then resp.result.map (fun list => (list.take 1).map row) else some []

/-- The row of one market; the loop goes on without one also when it cannot be made. -/
def orderbookRow (nowMs : ℤ) (market : String) (resp : Response Orderbook) : Option OrderbookTop := do
  if resp.retCode ≠ some 0 then none
  else
    let data := resp.result.getD {}
    let bid ← (data.b.getD []).head?
    let ask ← (data.a.getD []).head?
    let bidPrice := py.f (some (← bid[0]?))
    let bidSize := py.f (some (← bid[1]?))
    let askPrice := py.f (some (← ask[0]?))
    let askSize := py.f (some (← ask[1]?))
    let both := Option.map₂ Prod.mk (truthy bidPrice) (truthy askPrice)
    let denom := bidSize.getD 0 + askSize.getD 0
    let ts ← match data.ts with
      | none => some nowMs
      | some text => py.int text
    return {
      symbol := symbol
      marketType := market
      ts := ts
      bidPrice := bidPrice
      bidSize := bidSize
      askPrice := askPrice
      askSize := askSize
      spread := both.map (fun p => p.2 - p.1)
      midPrice := both.map (fun p => (p.2 + p.1) / 2)
      imbalance := if denom = 0 then none else some ((bidSize.getD 0 - askSize.getD 0) / denom) }

def publicTradeRow (market : String) (t : Record) : Option PublicTrade := do
  let ts ← match firstTruthy [t "T", t "time"] with
    | none => some 0
    | some text => py.int text
  return {
    symbol := symbol
    marketType := market
    tradeId := (firstTruthy [t "i", t "execId"]).getD ((t "T").getD "None" ++ "_" ++ (t "p").getD "None")
    ts := ts
    side := (firstTruthy [t "S"]).or (t "side")
    price := py.f ((firstTruthy [t "p"]).or (t "price"))
    size := py.f ((firstTruthy [t "v"]).or (t "size"))
    rawJson := py.dumps t }

def publicTradeRows (market : String) (resp : Response (List Record)) : List PublicTrade :=
  if resp.retCode ≠ some 0 then [] else appended (publicTradeRow py symbol market) (resp.result.getD [])

/-- `int(x.get(key, 0))`. -/
def Conversions.stamp (x : Record) (key : String) : Option ℤ :=
  match x key with
  | none => some 0
  | some text => py.int text

def fundingRow (x : Record) : Option FundingRate := do
  return ⟨symbol, ← py.stamp x "fundingRateTimestamp", py.f (x "fundingRate"), py.f (x "markPrice"), py.dumps x⟩

def openInterestRow (x : Record) : Option OpenInterest := do
  return ⟨symbol, "5min", ← py.stamp x "timestamp", py.f (x "openInterest"), py.dumps x⟩

def candle (timeframe : String) (r : List String) : Option Candle := do
  let number (i : ℕ) := r[i]?.bind py.float
  let values : Ohlcv := ⟨← number 1, ← number 2, ← number 3, ← number 4, ← number 5⟩
  let turnover ← if r.length > 6 then (number 6).map some else some none
  return ⟨⟨symbol, "spot", timeframe, ← r[0]?.bind py.int⟩, values, turnover⟩

/-- The rows of a kline response, if it is a success that can be read throughout. -/
def candles (timeframe : String) (resp : Response (List (List String))) : Option (List Candle) :=
  if resp.retCode ≠ some 0 then none else resp.result.bind (fun list => list.mapM (candle py symbol timeframe))

def featureBars (timeframe : String) (rows : List (ℤ × Ohlcv)) : List FeatureBar :=
  (FeatureBars.computeFeatures py.log (rows.insertionSort (fun a b => a.1 ≤ b.1))).map
    (fun r => ⟨⟨symbol, "spot", timeframe, r.1⟩, r.2⟩)

end Rows

section Collect

variable (py : Conversions)

def collectOhlcv (symbol timeframe : String) : Work Unit := swallow do
  match candles py symbol timeframe (← await (.getKline symbol timeframe)) with
  | none => return ()
  | some rows => await (.insertMany (.rawOhlcv rows))

def collectTicker (symbol : String) : Work Unit := do
  let nowMs ← await .nowMs
  swallow do
    match tickerRows (spotRow py symbol nowMs) (← await (.getTickers "spot" symbol)) with
    | none => return ()
    | some spot =>
        match tickerRows (linearRow py symbol nowMs) (← await (.getTickers "linear" symbol)) with
        | none => return ()
        | some linear => await (.insertMany (.rawTicker (spot ++ linear)))

def orderbookOf (symbol : String) (nowMs : ℤ) (market : String) : Work (List OrderbookTop) :=
  Prog.attempt (do return (orderbookRow py symbol nowMs market (← await (.getOrderbook market symbol))).toList)
    (fun _ => return [])

def collectOrderbookTop (symbol : String) : Work Unit := do
  let nowMs ← await .nowMs
  let spot ← orderbookOf py symbol nowMs "spot"
  let linear ← orderbookOf py symbol nowMs "linear"
  await (.insertMany (.rawOrderbookTop (spot ++ linear)))

def publicTradesOf (symbol market : String) : Work (List PublicTrade) :=
  Prog.attempt (do return publicTradeRows py symbol market (← await (.getPublicTradeHistory market symbol)))
    (fun _ => return [])

def collectPublicTrades (symbol : String) : Work Unit := do
  let spot ← publicTradesOf py symbol "spot"
  let linear ← publicTradesOf py symbol "linear"
  await (.insertMany (.rawPublicTrades (spot ++ linear)))

/-- The rows of a list that has to be read as a whole. -/
def listRows {α : Type} (row : Record → Option α) (resp : Response (List Record)) : Option (List α) :=
  if resp.retCode = some 0 then resp.result.bind (fun list => list.mapM row) else none

def collectDerivativesMetrics (symbol : String) : Work Unit := do
  swallow do
    match listRows (fundingRow py symbol) (← await (.getFundingRateHistory symbol)) with
    | none => return ()
    | some rows => await (.insertMany (.rawFundingRates rows))
  swallow do
    match listRows (openInterestRow py symbol) (← await (.getOpenInterest symbol)) with
    | none => return ()
    | some rows => await (.insertMany (.rawOpenInterest rows))

def computeFeatures (symbol timeframe : String) : Work Unit := do
  let rows ← await (.fetchOhlcv symbol "spot" timeframe 450)
  await (.insertMany (.featureBar (featureBars py symbol timeframe rows)))

def collectSymbol (timeframes : List String) (symbol : String) : Work Unit := do
  collectTicker py symbol
  collectOrderbookTop py symbol
  collectPublicTrades py symbol
  collectDerivativesMetrics py symbol
  Prog.forEach (fun tf => do
    collectOhlcv py symbol tf
    computeFeatures py symbol tf) timeframes

end Collect

def latestTick (symbol : String) : Work (Option Tick) := do
  let rows ← await (.fetchOhlcv symbol "spot" "1" 1)
  return rows.head?.map (fun r => ⟨symbol, r.1, r.2⟩)

def publishTick (symbol : String) : Work Unit := do
  match ← latestTick symbol with
  | none => return ()
  | some tick => await (.queuePush tick)

def recordHeartbeat : Work Unit := swallow (await .setHeartbeat)

/-- The body of the try statement of a cycle, once its run is open. -/
def cycleBody (symbols : List String) (n runId : ℕ) : Work Unit := do
  await (.gather n)
  await (.endRun runId .success "cycle completed")
  Prog.forEach publishTick symbols
  recordHeartbeat

def cycle (symbols : List String) (n : ℕ) : Work Unit := do
  let runId ← await .startRun
  (cycleBody symbols n runId).attempt (fun exc => await (.endRun runId .error exc))

/-- The loop of the main task, for as many cycles as it has time for. -/
def asyncMain (symbols : List String) (count : ℕ) : Work Unit := Prog.forEach (cycle symbols) (List.range count)

/-- The main task, and in each cycle a thread of the executor for every symbol. -/
inductive Task
  | main
  | thread (cycle index : ℕ)
  deriving DecidableEq

structure Config where
  py : Conversions
  backend : Backend
  symbols : List String
  timeframes : List String
  cycles : ℕ

/-- A thread may start at any time: nothing here rests on its being submitted first. -/
def Config.task (S : Config) : Task → Work Unit
  | .main => asyncMain S.symbols S.cycles
  | .thread _ index => (S.symbols[index]?).elim (return ()) (collectSymbol S.py S.timeframes)

structure World where
  db : QuantDb
  /-- Newest first. -/
  published : List Tick
  heartbeats : ℕ

inductive Fault
  | none
  | lost (text : String)
  | late (text : String)

def Fault.apply {α : Type} (f : Fault) (w : World) (r : α × World) : Except String α × World :=
  match f with
  | .none => (.ok r.1, r.2)
  | .lost text => (.error text, w)
  | .late text => (.error text, r.2)

/-- What the surroundings answer. -/
structure Env where
  fault : Fault
  nowMs : ℤ
  records : Response (List Record)
  orderbook : Response Orderbook
  klines : Response (List (List String))
  gathered : Except String Unit

def exec (backend : Backend) (op : Op) (c : Env) (w : World) : Except String op.Res × World :=
  match op with
  | .nowMs => (.ok c.nowMs, w)
  | .getTickers .. | .getPublicTradeHistory .. | .getFundingRateHistory _ | .getOpenInterest _ =>
      c.fault.apply w (c.records, w)
  | .getOrderbook .. => c.fault.apply w (c.orderbook, w)
  | .getKline .. => c.fault.apply w (c.klines, w)
  | .insertMany rows =>
      if rows.isEmpty then (.ok (), w)
      else c.fault.apply w ((), { w with db := insertMany backend rows w.db })
  | .fetchOhlcv symbol marketType timeframe limit =>
      c.fault.apply w (fetchOhlcv w.db.rawOhlcv symbol marketType timeframe limit, w)
  | .startRun =>
      let r := startRun w.db
      c.fault.apply w (r.1, { w with db := r.2 })
  | .gather _ => (c.gathered, w)
  | .endRun runId status message => c.fault.apply w ((), { w with db := endRun runId status message w.db })
  | .queuePush tick => c.fault.apply w ((), { w with published := tick :: w.published })
  | .setHeartbeat => c.fault.apply w ((), { w with heartbeats := w.heartbeats + 1 })

/-- What a call can do to the world. -/
inductive Effect (backend : Backend) (op : Op) (w : World) : World → Prop
  | same : Effect backend op w w
  | inserted (rows : Rows) (h : op = .insertMany rows) :
      Effect backend op w { w with db := insertMany backend rows w.db }
  | started (h : op = .startRun) : Effect backend op w { w with db := (startRun w.db).2 }
  | ended (runId : ℕ) (status : RunStatus) (message : String) (h : op = .endRun runId status message) :
      Effect backend op w { w with db := endRun runId status message w.db }
  | pushed (tick : Tick) (h : op = .queuePush tick) : Effect backend op w { w with published := tick :: w.published }
  | beat (h : op = .setHeartbeat) : Effect backend op w { w with heartbeats := w.heartbeats + 1 }

theorem fault_effect {backend : Backend} {op : Op} {w : World} {α : Type} (f : Fault) (a : α) {w' : World}
    (h : Effect backend op w w') : Effect backend op w (f.apply w (a, w')).2 := by
  cases f with
  | none | late _ => exact h
  | lost _ => exact .same

theorem exec_effect (backend : Backend) (op : Op) (c : Env) (w : World) :
    Effect backend op w (exec backend op c w).2 := by
  cases op with
  | nowMs | gather n => exact .same
  | insertMany rows =>
      rw [exec]
      split
      · exact .same
      · exact fault_effect c.fault () (.inserted rows rfl)
  | startRun => exact fault_effect c.fault _ (.started rfl)
  | endRun runId status message => exact fault_effect c.fault () (.ended runId status message rfl)
  | queuePush tick => exact fault_effect c.fault () (.pushed tick rfl)
  | setHeartbeat => exact fault_effect c.fault () (.beat rfl)
  | _ => exact fault_effect c.fault _ .same

section Effects

variable {backend : Backend}

/-- The candles that a call brings to the store. -/
def opCandles : Op → List Candle
  | .insertMany rows => rows.candles
  | _ => []

theorem Effect.batch {op : Op} {w w' : World} (h : Effect backend op w w') :
    Batch (opCandles op) w.db.rawOhlcv w'.db.rawOhlcv := by
  cases h with
  | inserted rows h => exact h ▸ batch_rawOhlcv backend rows w.db
  | _ => exact Batch.refl _ _

theorem Effect.mem_postgres {op : Op} {w w' : World} (h : Effect .postgres op w w') {r : Candle}
    (hr : r ∈ w.db.rawOhlcv.rows) : r ∈ w'.db.rawOhlcv.rows := by
  cases h with
  | inserted rows => exact mem_rawOhlcv_postgres rows w.db hr
  | _ => exact hr

theorem Effect.published {op : Op} {w w' : World} (h : Effect backend op w w') : w'.published = w.published ∨
    ∃ tick, op = .queuePush tick ∧ w'.published = tick :: w.published := by
  cases h with
  | pushed tick h => exact .inr ⟨tick, h, rfl⟩
  | _ => exact .inl rfl

end Effects

theorem fault_ok {α : Type} {f : Fault} {w : World} {r : α × World} {a : α} (h : (f.apply w r).1 = .ok a) :
    f.apply w r = (.ok r.1, r.2) ∧ a = r.1 := by
  cases f with
  | none => exact ⟨rfl, (Except.ok.inj h).symm⟩
  | lost _ | late _ => cases h

/-- The world has no clock: what a row is stamped with comes from the surroundings. -/
def handler (backend : Backend) : Handler Op Op.Res String World Env where
  exec := exec backend
  clock _ := 0

@[simp] theorem handler_exec (backend : Backend) : (handler backend).exec = exec backend := rfl

abbrev Pool := Conf Task Op Op.Res String World Unit

/-- The process starts on the database as it finds it. -/
def Config.begin (S : Config) (db : QuantDb) : Pool := start S.task ⟨db, [], 0⟩

abbrev Config.runs (S : Config) (db : QuantDb) (ls : List (Task × Env)) : Pool :=
  Async.runs (handler S.backend) (S.begin db) ls

section Uses

variable {py : Conversions}

/-- The calls of a thread that no other table is made from. -/
def Collects : Op → Prop
  | .insertMany (.rawOhlcv _) | .insertMany (.featureBar _) => False
  | .startRun | .gather _ | .endRun .. | .queuePush _ | .setHeartbeat => False
  | _ => True

/-- The calls of a thread. -/
def OfThread : Op → Prop
  | .startRun | .gather _ | .endRun .. | .queuePush _ | .setHeartbeat => False
  | _ => True

theorem ofThread_of_collects (op : Op) (h : Collects op) : OfThread op := by
  cases op with
  | startRun | gather _ | endRun _ _ _ | queuePush _ | setHeartbeat => exact h
  | _ => exact trivial

theorem uses_swallow {P : Op → Prop} {p : Work Unit} (hp : p.Uses P) : (swallow p).Uses P :=
  Prog.uses_attempt hp (fun _ => trivial)

theorem uses_await {P : Op → Prop} (op : Op) (h : P op) : (await op).Uses P := Prog.uses_perform h

theorem collectTicker_collects (symbol : String) : (collectTicker py symbol).Uses Collects := by
  refine Prog.uses_bind (uses_await _ trivial) (fun nowMs => uses_swallow ?_)
  refine Prog.uses_bind (uses_await _ trivial) (fun spot => ?_)
  split
  · exact trivial
  · refine Prog.uses_bind (uses_await _ trivial) (fun linear => ?_)
    split
    · exact trivial
    · exact uses_await _ trivial

theorem collectOrderbookTop_collects (symbol : String) : (collectOrderbookTop py symbol).Uses Collects := by
  have hmarket : ∀ nowMs market, (orderbookOf py symbol nowMs market).Uses Collects := fun nowMs market =>
    Prog.uses_attempt (Prog.uses_bind (uses_await _ trivial) (fun _ => trivial)) (fun _ => trivial)
  refine Prog.uses_bind (uses_await _ trivial) (fun nowMs => ?_)
  refine Prog.uses_bind (hmarket nowMs "spot") (fun _ => ?_)
  exact Prog.uses_bind (hmarket nowMs "linear") (fun _ => uses_await _ trivial)

theorem collectPublicTrades_collects (symbol : String) : (collectPublicTrades py symbol).Uses Collects := by
  have hmarket : ∀ market, (publicTradesOf py symbol market).Uses Collects := fun market =>
    Prog.uses_attempt (Prog.uses_bind (uses_await _ trivial) (fun _ => trivial)) (fun _ => trivial)
  refine Prog.uses_bind (hmarket "spot") (fun _ => ?_)
  exact Prog.uses_bind (hmarket "linear") (fun _ => uses_await _ trivial)

theorem collectDerivativesMetrics_collects (symbol : String) : (collectDerivativesMetrics py symbol).Uses Collects := by
  refine Prog.uses_bind (uses_swallow ?_) (fun _ => uses_swallow ?_)
  all_goals
    refine Prog.uses_bind (uses_await _ trivial) (fun resp => ?_)
    split
    · exact trivial
    · exact uses_await _ trivial

theorem collectSymbol_ofThread (timeframes : List String) (symbol : String) :
    (collectSymbol py timeframes symbol).Uses OfThread := by
  refine Prog.uses_bind ((collectTicker_collects symbol).mono ofThread_of_collects) (fun _ => ?_)
  refine Prog.uses_bind ((collectOrderbookTop_collects symbol).mono ofThread_of_collects) (fun _ => ?_)
  refine Prog.uses_bind ((collectPublicTrades_collects symbol).mono ofThread_of_collects) (fun _ => ?_)
  refine Prog.uses_bind ((collectDerivativesMetrics_collects symbol).mono ofThread_of_collects) (fun _ => ?_)
  refine Prog.uses_forEach (fun timeframe => Prog.uses_bind (uses_swallow ?_) (fun _ => ?_)) timeframes
  · refine Prog.uses_bind (uses_await _ trivial) (fun resp => ?_)
    split
    · exact trivial
    · exact uses_await _ trivial
  · exact Prog.uses_bind (uses_await _ trivial) (fun rows => uses_await _ trivial)

end Uses

end Autr.Collection.Collector
