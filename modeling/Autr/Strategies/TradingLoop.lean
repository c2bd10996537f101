import Autr.Async.Pool
import Autr.Infra.Bybit
import Autr.Infra.TradeTracker
import Autr.Strategies.Frames
import Mathlib.Data.List.Destutter

namespace Autr.Strategies.TradingLoop

open Async Decimal Domain.CandleFrame Engines Frames Infra Infra.TradeTracker Services StrategyConsumer StrategyParams

/-- The name of a strategy in the signal log. -/
def strategyName : EngineKind → String
  | .regimeTrend => "regime_trend"
  | .breakoutVolume => "breakout_volume"
  | .meanReversion => "mean_reversion"
  | .dualTimeframe => "dual_timeframe"

/-- What a strategy puts before the side in the signal of a trade. -/
def signalPrefix : EngineKind → String
  | .regimeTrend => "regime"
  | .breakoutVolume => "breakout"
  | .meanReversion => "mr"
  | .dualTimeframe => "dtf"

/-- A strategy object apart from the state that its loop changes. -/
structure Strategy where
  engine : Engine
  symbol : String
  sqrt : ℚ → ℚ

structure Trader where
  isActive : Bool
  long : Bool
  lastSignal : Option Signal
  lastReason : Option String
  tradeAmount : Option ℚ
  stop : Option ℚ
  barsSinceTrade : ℕ

structure SignalLog where
  symbol : String
  strategy : String
  signal : Signal
  reason : String
  trailingStop : Option ℚ
  inPosition : Bool

inductive Op
  | getKlineData (symbol : String) (interval : Value) (limit : ℚ)
  | calculateSafeOrderSize (symbol : String) (side : Bybit.Side)
  | placeOrder (symbol : String) (side : Bybit.Side) (qty : Option ℚ)
  | addSignalLog (entry : SignalLog)
  | addTrade (trade : Trade)
  | getCurrentPositions

/-- The rows of an answered kline, `none` for one that cannot be parsed. -/
abbrev Kline := List (Option (ℤ × QuantStore.Ohlcv))

abbrev Op.Res : Op → Type
  | .getKlineData _ _ _ => Kline
  | .calculateSafeOrderSize _ _ => Option ℚ
  | .placeOrder _ _ _ => Bool
  | .addSignalLog _ | .addTrade _ => Unit
  | .getCurrentPositions => String → Option CurrentPosition

/-- The methods of a strategy object. What a method has set stays set when it raises, so that
an exception is an answer here, beside the object. -/
abbrev Method := ExceptT String (StateT Trader (Prog Op (fun op => Except String op.Res) Empty))

def act (op : Op) : Method op.Res := fun t => .call op (fun
  | .ok r => .pure (r, t)
  | .error e => e.elim)

def ofOption {α : Type} (error : String) : Option α → Method α
  | some a => pure a
  | none => throw error

/-- Rows of one time that are next to each other are reduced to the first. -/
def candlesToDataframe (raw : Kline) : DataFrame :=
  ((raw.filterMap id).insertionSort (fun a b => a.1 ≤ b.1)).destutter (fun a b => a.1 ≠ b.1)

def waitBar : Method Unit := modify fun t => { t with barsSinceTrade := t.barsSinceTrade + 1 }

def filledTrade (symbol side signal : String) (qty price : ℚ) : Trade :=
  { symbol, side, quantity := qty, price, signal, positionType := "spot", status := "filled",
    dollarAmount := qty * price, fees := 0, orderId := "" }

namespace Strategy

variable (S : Strategy)

def buyTrade (decision : Decision) (qty : ℚ) : Trade :=
  filledTrade S.symbol "Buy" (signalPrefix S.engine.kind ++ "_buy:" ++ decision.reason) qty decision.closePrice

def sellTrade (decision : Decision) (qty : ℚ) : Trade :=
  filledTrade S.symbol "Sell" (signalPrefix S.engine.kind ++ "_sell:" ++ decision.reason) qty decision.closePrice

def executeBuy (decision : Decision) : Method Unit := do
  if (← get).long then waitBar
  else
    match ← act (.calculateSafeOrderSize S.symbol .buy) with
    | none => waitBar
    | some safeQty =>
        let success ← act (.placeOrder S.symbol .buy (some safeQty))
        if !success then waitBar
        else
          modify fun t => { t with long := true, tradeAmount := some safeQty, barsSinceTrade := 0 }
          act (.addTrade (S.buyTrade decision safeQty))

def executeSell (decision : Decision) : Method Unit := do
  if !(← get).long then waitBar
  else
    let success ← act (.placeOrder S.symbol .sell none)
    if !success then waitBar
    else
      let soldQty := (← get).tradeAmount.getD 0
      act (.addTrade (S.sellTrade decision soldQty))
      modify fun t => { t with long := false, tradeAmount := none, stop := none, barsSinceTrade := 0 }

/-- From the decision on. -/
def follow (decision : Decision) (frame : List FrameRow) : Method Unit := do
  if frame = [] then throw "single positional indexer is out-of-bounds"
  modify fun t => { t with
    lastReason := some decision.reason, lastSignal := some decision.signal,
    stop := decidedStop S.engine.kind decision }
  let t ← get
  act (.addSignalLog ⟨S.symbol, strategyName S.engine.kind, decision.signal, decision.reason, t.stop, t.long⟩)
  match decision.signal with
  | .buy => S.executeBuy decision
  | .sell => S.executeSell decision
  | .hold => waitBar

def attributeOf (key : String) : Method Value := ofOption key (S.engine.params.get key)

def numberOf (key : String) : Method ℚ := ofOption key (S.engine.params.number key)

/-- One round of the three strategies of one timeframe. -/
def executeSingle : Method Unit := do
  let raw ← act (.getKlineData S.symbol (← S.attributeOf "interval") (← S.numberOf "lookback_bars"))
  let candles := candlesToDataframe raw
  if candles = [] then return
  else
    let frame ← ofOption "build_indicator_frame" (buildFrame S.sqrt S.engine candles)
    let t ← get
    let decision ← ofOption "decide"
      (S.engine.decide (frame.map FrameRow.indicators) false false t.long t.stop t.barsSinceTrade)
    S.follow decision frame

def executeDual : Method Unit := do
  let slow ← S.numberOf "htf_ema_slow"
  let htfRaw ← act (.getKlineData S.symbol (← S.attributeOf "htf_interval") (max (slow * 3) (slow + 20)))
  let ltfRaw ← act (.getKlineData S.symbol (← S.attributeOf "ltf_interval") (← S.numberOf "ltf_lookback_bars"))
  let htfCandles := candlesToDataframe htfRaw
  let ltfCandles := candlesToDataframe ltfRaw
  if ltfCandles = [] then return
  else
    let htfBullish ← ofOption "htf_is_bullish" (htfIsBullish S.engine.params htfCandles)
    let htfDataSufficient := decide (slow + 5 ≤ htfCandles.length)
    let ltfFrame ← ofOption "build_ltf_frame" (buildFrame S.sqrt S.engine ltfCandles)
    let t ← get
    let decision ← ofOption "decide"
      (S.engine.decide (ltfFrame.map FrameRow.indicators) htfBullish htfDataSufficient t.long t.stop t.barsSinceTrade)
    S.follow decision ltfFrame

def executeStrategy : Method Unit :=
  if S.engine.kind = .dualTimeframe then S.executeDual else S.executeSingle

def restoreStateFromDb : Method Unit :=
  tryCatch
    (do
      let positions ← act .getCurrentPositions
      let qty := ((positions S.symbol).map CurrentPosition.totalQuantity).getD 0
      modify fun t =>
        { t with long := decide (0 < qty), tradeAmount := if 0 < qty then some (roundTo 8 qty) else none })
    (fun _ => pure ())

/-- What `start_trading` does before its loop. -/
def startTrading : Method Unit := do
  S.restoreStateFromDb
  modify fun t => { t with isActive := true }

/-- One turn of the loop. -/
def turn : Method Unit := do
  if (← get).isActive then tryCatch S.executeStrategy (fun _ => pure ())

def stopTrading : Method Unit := modify fun t => { t with isActive := false }

/-- The object as it is built. -/
def fresh (cooldownBars : ℕ) : Trader := ⟨false, false, none, none, none, none, cooldownBars⟩

end Strategy

structure World where
  trades : List Trade
  signalLogs : List SignalLog

/-- What the surroundings answer. The price at which a quantity is calculated and the one
at which the order is checked are two reads; a database call fails before or after its effect. -/
structure Env where
  kline : Kline
  quote : ℚ
  balances : Bybit.Balances
  price : ℚ
  accepted : Bool
  fault : Option Bool

def Env.calculated (cfg : Bybit.Config) (c : Env) (symbol : String) (side : Bybit.Side) : Option ℚ :=
  Bybit.safeOrderSize cfg symbol side c.quote c.balances

/-- An order is filled when it passes the checks of the client and the exchange accepts it. -/
def Env.filled (cfg : Bybit.Config) (c : Env) (symbol : String) (side : Bybit.Side) (qty : Option ℚ) : Bool :=
  match qty <|> c.calculated cfg symbol side with
  | none => false
  | some q => cfg.authenticated && decide (Bybit.orderGuard cfg side q c.price = none) && c.accepted

def Env.stored (c : Env) (w w' : World) : Except String Unit × World :=
  match c.fault with
  | none => (.ok (), w')
  | some false => (.error "database", w)
  | some true => (.error "database", w')

def exec (cfg : Bybit.Config) (op : Op) (c : Env) (w : World) : Except String op.Res × World :=
  match op with
  | .getKlineData _ _ _ => (.ok c.kline, w)
  | .calculateSafeOrderSize symbol side => (.ok (c.calculated cfg symbol side), w)
  | .placeOrder symbol side qty => (.ok (c.filled cfg symbol side qty), w)
  | .addSignalLog entry => c.stored w { w with signalLogs := w.signalLogs ++ [entry] }
  | .addTrade trade => c.stored w { w with trades := w.trades ++ [trade] }
  | .getCurrentPositions =>
      match c.fault with
      | none => (.ok (fun symbol => getCurrentPositions symbol "spot" w.trades), w)
      | some _ => (.error "database", w)

def handler (cfg : Bybit.Config) : Handler Op (fun op => Except String op.Res) Empty World Env where
  exec op c w := (.ok (exec cfg op c w).1, (exec cfg op c w).2)
  clock _ := 0

/-- The object beside the database. -/
abbrev Process := Trader × World

/-- A method that is called on the object, with what becomes of both. -/
def call {α : Type} (cfg : Bybit.Config) (f : Op → Env) (m : Method α) (x : Process) : Except String α × Process :=
  match eval (handler cfg) f (m x.1) x.2 with
  | (.ok (r, t), w) => (r, t, w)
  | (.error e, _) => e.elim

section Call

variable {α β : Type} {cfg : Bybit.Config} {f : Op → Env} {x : Process}

@[simp] theorem call_pure (a : α) : call cfg f (pure a : Method α) x = (.ok a, x) := rfl

@[simp] theorem call_throw (e : String) : call cfg f (throw e : Method α) x = (.error e, x) := rfl

@[simp] theorem call_get : call cfg f (get : Method Trader) x = (.ok x.1, x) := rfl

@[simp] theorem call_modify (g : Trader → Trader) : call cfg f (modify g : Method Unit) x = (.ok (), g x.1, x.2) := rfl

@[simp] theorem call_act (op : Op) :
    call cfg f (act op) x = ((exec cfg op (f op) x.2).1, x.1, (exec cfg op (f op) x.2).2) := rfl

@[simp] theorem call_bind (m : Method α) (k : α → Method β) :
    call cfg f (m >>= k) x = match call cfg f m x with
      | (.ok a, y) => call cfg f (k a) y
      | (.error e, y) => (.error e, y) := by
  have hbind : eval (handler cfg) f ((m >>= k) x.1) x.2 = match eval (handler cfg) f (m x.1) x.2 with
      | (.ok (.ok a, t), w) => eval (handler cfg) f (k a t) w
      | (.ok (.error e, t), w) => (.ok (.error e, t), w)
      | (.error e, _) => e.elim := by
    refine (eval_bind (handler cfg) f (m x.1) _ x.2).trans ?_
    rcases eval (handler cfg) f (m x.1) x.2 with ⟨e | ⟨_ | _, t⟩, w⟩
    · exact e.elim
    · rfl
    · rfl
  rw [call, hbind, call]
  rcases eval (handler cfg) f (m x.1) x.2 with ⟨e | ⟨_ | _, t⟩, w⟩
  · exact e.elim
  · rfl
  · rfl

/-- Swallowing an exception leaves the object and the database as the exception found them. -/
theorem call_swallow (m : Method Unit) :
    call cfg f (tryCatch m (fun _ => pure ())) x = (.ok (), (call cfg f m x).2) := by
  have hcatch : eval (handler cfg) f ((tryCatch m (fun _ => pure ()) : Method Unit) x.1) x.2 =
      match eval (handler cfg) f (m x.1) x.2 with
      | (.ok (_, t), w) => (.ok (.ok (), t), w)
      | (.error e, _) => e.elim := by
    refine (eval_bind (handler cfg) f (m x.1) _ x.2).trans ?_
    rcases eval (handler cfg) f (m x.1) x.2 with ⟨e | ⟨_ | _, t⟩, w⟩
    · exact e.elim
    · rfl
    · rfl
  rw [call, hcatch, call]
  rcases eval (handler cfg) f (m x.1) x.2 with ⟨e | ⟨_ | _, t⟩, w⟩
  · exact e.elim
  · rfl
  · rfl

end Call

end Autr.Strategies.TradingLoop
