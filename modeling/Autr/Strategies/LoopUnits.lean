import Autr.Strategies.DecisionUnits
import Autr.Strategies.LoopBooks
import Mathlib.Data.Rat.Sqrt

namespace Autr.Strategies.LoopUnits

open Decimal DecisionUnits Domain.CandleFrame Domain.RegimeScale Engines Frames Infra Infra.TradeTracker
open LoopBooks Services.StrategyConsumer StrategyParams TradingLoop

section Scale

variable (c d : ℚ)

def scaleTrade (t : Trade) : Trade :=
  { t with price := c * t.price, dollarAmount := c * t.dollarAmount, fees := c * t.fees }

def scaleLog (entry : SignalLog) : SignalLog := { entry with trailingStop := entry.trailingStop.map (c * ·) }

def scaleTrader (t : Trader) : Trader := { t with stop := t.stop.map (c * ·) }

def scaleWorld (w : World) : World := ⟨w.trades.map (scaleTrade c), w.signalLogs.map (scaleLog c)⟩

def scaleProcess (x : Process) : Process := (scaleTrader c x.1, scaleWorld c x.2)

/-- Another unit of the quote currency. -/
def scaleConfig (cfg : Bybit.Config) : Bybit.Config :=
  { cfg with maxTradeAmount := c * cfg.maxTradeAmount, minOrderSize := c * cfg.minOrderSize }

def scaleBalances (b : Bybit.Balances) : Bybit.Balances := fun coin =>
  (b coin).map (fun held => if coin = "USDT" then ⟨c * held.balance, c * held.available⟩ else held)

def scaleKline (raw : Kline) : Kline := raw.map (Option.map (fun r => (r.1, scaleCandle c d r.2)))

def scaleEnv (env : Env) : Env where
  kline := scaleKline c d env.kline
  quote := c * env.quote
  balances := scaleBalances c env.balances
  price := c * env.price
  accepted := env.accepted
  fault := env.fault

def scaleOp : Op → Op
  | .addSignalLog entry => .addSignalLog (scaleLog c entry)
  | .addTrade trade => .addTrade (scaleTrade c trade)
  | op => op

def scaleEvent : Event → Event
  | .other trade => .other (scaleTrade c trade)
  | event => event

end Scale

section Client

variable {c d : ℚ} {cfg : Bybit.Config} {env : Env} {symbol : String}

theorem availableOf_scaled (b : Bybit.Balances) (coin : String) :
    Bybit.availableOf (scaleBalances c b) coin =
      if coin = "USDT" then c * Bybit.availableOf b coin else Bybit.availableOf b coin := by
  simp only [Bybit.availableOf, scaleBalances]
  cases b coin <;> split <;> simp_all

variable (hc : 0 < c)

include hc

/-- The quantities of orders are not in the quote currency. -/
theorem calculated_scaled (hbase : Bybit.baseCurrency symbol ≠ "USDT") (side : Bybit.Side) :
    (scaleEnv c d env).calculated (scaleConfig c cfg) symbol side = env.calculated cfg symbol side := by
  have hprice : c * env.quote ≤ 0 ↔ env.quote ≤ 0 := by
    rw [← not_lt, ← not_lt, mul_pos_iff_of_pos_left hc]
  have hmin : min (c * Bybit.availableOf env.balances "USDT") (c * cfg.maxTradeAmount) =
      c * min (Bybit.availableOf env.balances "USDT") cfg.maxTradeAmount := (mul_min_of_nonneg _ _ hc.le).symm
  simp only [Env.calculated, Bybit.safeOrderSize, scaleEnv, scaleConfig, availableOf_scaled, if_true, if_neg hbase,
    hprice, hmin, mul_lt_mul_iff_right₀ hc, mul_assoc, mul_div_mul_left _ _ hc.ne']

theorem orderGuard_scaled (side : Bybit.Side) (qty price : ℚ) :
    Bybit.orderGuard (scaleConfig c cfg) side qty (c * price) = none ↔ Bybit.orderGuard cfg side qty price = none := by
  simp only [Bybit.orderGuard, scaleConfig, mul_left_comm qty c, mul_lt_mul_iff_right₀ hc]
  split_ifs <;> simp

theorem filled_scaled (hbase : Bybit.baseCurrency symbol ≠ "USDT") (side : Bybit.Side) (qty : Option ℚ) :
    (scaleEnv c d env).filled (scaleConfig c cfg) symbol side qty = env.filled cfg symbol side qty := by
  have hguard : ∀ q, decide (Bybit.orderGuard (scaleConfig c cfg) side q (c * env.price) = none) =
      decide (Bybit.orderGuard cfg side q env.price = none) :=
    fun q => decide_eq_decide.2 (orderGuard_scaled hc side q env.price)
  simp only [Env.filled, calculated_scaled hc hbase]
  cases qty <|> env.calculated cfg symbol side with
  | none => rfl
  | some q =>
      change (cfg.authenticated && decide (Bybit.orderGuard (scaleConfig c cfg) side q (c * env.price) = none) &&
        env.accepted) = _
      rw [hguard]

end Client

/-- Two methods do the same on two objects whose quote currencies differ in their unit. -/
def Scales {α β : Type} (c : ℚ) (cfg : Bybit.Config) (f f' : Op → Env) (g : α → β) (m : Method α) (m' : Method β) :
    Prop :=
  ∀ x, call (scaleConfig c cfg) f' m' (scaleProcess c x) =
    ((call cfg f m x).1.map g, scaleProcess c (call cfg f m x).2)

section Scales

variable {α β γ δ : Type} {c d : ℚ} {cfg : Bybit.Config} {f f' : Op → Env}

theorem scales_pure {g : α → β} {a : α} {b : β} (h : b = g a) : Scales c cfg f f' g (pure a) (pure b) := by
  intro x
  rw [h]
  rfl

theorem scales_throw (g : α → β) (e : String) : Scales c cfg f f' g (throw e) (throw e) := fun _ => rfl

theorem scales_get : Scales c cfg f f' (scaleTrader c) get get := fun _ => rfl

theorem scales_modify {u u' : Trader → Trader} (h : ∀ t, u' (scaleTrader c t) = scaleTrader c (u t)) :
    Scales c cfg f f' id (modify u) (modify u') := by
  intro x
  rw [call_modify, call_modify]
  exact congrArg (fun t => (Except.ok (), t, scaleWorld c x.2)) (h x.1)

theorem scales_bind {g : α → β} {h : γ → δ} {m : Method α} {m' : Method β} {k : α → Method γ} {k' : β → Method δ}
    (hm : Scales c cfg f f' g m m') (hk : ∀ a, Scales c cfg f f' h (k a) (k' (g a))) :
    Scales c cfg f f' h (m >>= k) (m' >>= k') := by
  intro x
  rw [call_bind, call_bind, hm x]
  rcases call cfg f m x with ⟨e | a, y⟩
  · rfl
  · exact hk a y

theorem scales_swallow {m m' : Method Unit} (h : Scales c cfg f f' id m m') :
    Scales c cfg f f' id (tryCatch m (fun _ => pure ())) (tryCatch m' (fun _ => pure ())) := by
  intro x
  rw [call_swallow, call_swallow, h x]
  rfl

theorem scales_ofOption {g : α → β} (error : String) {a : Option α} {b : Option β} (h : b = a.map g) :
    Scales c cfg f f' g (ofOption error a) (ofOption error b) := by
  rw [h]
  cases a with
  | none => exact scales_throw g error
  | some a => exact scales_pure rfl

theorem scales_read (error : String) (a : Option α) : Scales c cfg f f' id (ofOption error a) (ofOption error a) :=
  scales_ofOption error (congrFun Option.map_id a).symm

theorem scales_waitBar : Scales c cfg f f' id waitBar waitBar := scales_modify (fun _ => rfl)

end Scales

/-- The answers to the calls of one object are those to the other's, in the other units. -/
def Answers (c d : ℚ) (f f' : Op → Env) : Prop := ∀ op, f' (scaleOp c op) = scaleEnv c d (f op)

section Calls

variable {c d : ℚ} {cfg : Bybit.Config} {f f' : Op → Env} {symbol : String}

theorem scales_getKlineData (hf : Answers c d f f') (interval : Value) (limit : ℚ) :
    Scales c cfg f f' (scaleKline c d) (act (.getKlineData symbol interval limit))
      (act (.getKlineData symbol interval limit)) := by
  intro x
  have hread : f' (.getKlineData symbol interval limit) = scaleEnv c d (f (.getKlineData symbol interval limit)) :=
    hf (.getKlineData symbol interval limit)
  rw [call_act, call_act, exec, hread]
  rfl

theorem scales_calculateSafeOrderSize (hc : 0 < c) (hf : Answers c d f f') (hbase : Bybit.baseCurrency symbol ≠ "USDT")
    (side : Bybit.Side) :
    Scales c cfg f f' id (act (.calculateSafeOrderSize symbol side)) (act (.calculateSafeOrderSize symbol side)) := by
  intro x
  have hread : f' (.calculateSafeOrderSize symbol side) = scaleEnv c d (f (.calculateSafeOrderSize symbol side)) :=
    hf (.calculateSafeOrderSize symbol side)
  rw [call_act, call_act, exec, hread, calculated_scaled hc hbase]
  rfl

theorem scales_placeOrder (hc : 0 < c) (hf : Answers c d f f') (hbase : Bybit.baseCurrency symbol ≠ "USDT")
    (side : Bybit.Side) (qty : Option ℚ) :
    Scales c cfg f f' id (act (.placeOrder symbol side qty)) (act (.placeOrder symbol side qty)) := by
  intro x
  have hread : f' (.placeOrder symbol side qty) = scaleEnv c d (f (.placeOrder symbol side qty)) :=
    hf (.placeOrder symbol side qty)
  rw [call_act, call_act, exec, hread, filled_scaled hc hbase]
  rfl

theorem stored_scaled (env : Env) (w w' : World) :
    (scaleEnv c d env).stored (scaleWorld c w) (scaleWorld c w') =
      ((env.stored w w').1.map id, scaleWorld c (env.stored w w').2) := by
  simp only [Env.stored, scaleEnv]
  cases env.fault with
  | none => rfl
  | some late => cases late <;> rfl

theorem scales_addSignalLog (hf : Answers c d f f') (entry : SignalLog) :
    Scales c cfg f f' id (act (.addSignalLog entry)) (act (.addSignalLog (scaleLog c entry))) := by
  intro x
  have hread : f' (.addSignalLog (scaleLog c entry)) = scaleEnv c d (f (.addSignalLog entry)) :=
    hf (.addSignalLog entry)
  have hworld : scaleWorld c { x.2 with signalLogs := x.2.signalLogs ++ [entry] } =
      { scaleWorld c x.2 with signalLogs := (scaleWorld c x.2).signalLogs ++ [scaleLog c entry] } := by
    simp [scaleWorld]
  have hstored := stored_scaled (c := c) (d := d) (f (.addSignalLog entry)) x.2
    { x.2 with signalLogs := x.2.signalLogs ++ [entry] }
  rw [hworld, ← hread] at hstored
  rw [call_act, call_act]
  exact congrArg (fun r => (r.1, scaleTrader c x.1, r.2)) hstored

theorem scales_addTrade (hf : Answers c d f f') (trade : Trade) :
    Scales c cfg f f' id (act (.addTrade trade)) (act (.addTrade (scaleTrade c trade))) := by
  intro x
  have hread : f' (.addTrade (scaleTrade c trade)) = scaleEnv c d (f (.addTrade trade)) := hf (.addTrade trade)
  have hworld : scaleWorld c { x.2 with trades := x.2.trades ++ [trade] } =
      { scaleWorld c x.2 with trades := (scaleWorld c x.2).trades ++ [scaleTrade c trade] } := by
    simp [scaleWorld]
  have hstored := stored_scaled (c := c) (d := d) (f (.addTrade trade)) x.2 { x.2 with trades := x.2.trades ++ [trade] }
  rw [hworld, ← hread] at hstored
  rw [call_act, call_act]
  exact congrArg (fun r => (r.1, scaleTrader c x.1, r.2)) hstored

end Calls

section Positions

variable {c d : ℚ} {cfg : Bybit.Config} {f f' : Op → Env}

def scalePosition (c : ℚ) (p : CurrentPosition) : CurrentPosition :=
  ⟨p.totalQuantity, c * p.averagePrice, c * p.totalInvested⟩

theorem summarize_scaled (trades : List Trade) :
    summarize (trades.map (scaleTrade c)) = scalePosition c (summarize trades) := by
  have hquantity : Trade.signed Trade.quantity ∘ scaleTrade c = Trade.signed Trade.quantity := rfl
  have hdollars : Trade.signed Trade.dollarAmount ∘ scaleTrade c = (c * ·) ∘ Trade.signed Trade.dollarAmount := by
    funext t
    simp only [Function.comp, Trade.signed, mul_ite, mul_neg, mul_zero]
    rfl
  have hsum : (trades.map ((c * ·) ∘ Trade.signed Trade.dollarAmount)).sum =
      c * (trades.map (Trade.signed Trade.dollarAmount)).sum := by
    rw [← List.map_map]
    exact sum_map_mul c _
  simp only [summarize, scalePosition, List.map_map, hquantity, hdollars, hsum, mul_div_assoc, mul_ite, mul_zero]

theorem groupOf_scaled (symbol positionType : String) (trades : List Trade) :
    groupOf symbol positionType (trades.map (scaleTrade c)) =
      (groupOf symbol positionType trades).map (scaleTrade c) := by
  rw [groupOf, groupOf, List.filter_map]
  rfl

theorem listedTrades_scaled (symbol positionType : String) (trades : List Trade) :
    listedTrades symbol positionType (trades.map (scaleTrade c)) =
      (listedTrades symbol positionType trades).map (scaleTrade c) := by
  simp only [listedTrades, groupOf_scaled, List.map_eq_nil_iff]
  split_ifs <;> rfl

theorem getCurrentPositions_scaled (symbol positionType : String) (trades : List Trade) :
    getCurrentPositions symbol positionType (trades.map (scaleTrade c)) =
      (getCurrentPositions symbol positionType trades).map (scalePosition c) := by
  rw [getCurrentPositions, getCurrentPositions, listedTrades_scaled]
  cases listedTrades symbol positionType trades with
  | nil => rfl
  | cons t ts => exact congrArg some (summarize_scaled (t :: ts))

theorem scales_getCurrentPositions (hf : Answers c d f f') :
    Scales c cfg f f' (fun positions symbol => (positions symbol).map (scalePosition c)) (act .getCurrentPositions)
      (act .getCurrentPositions) := by
  intro x
  have hread : f' .getCurrentPositions = scaleEnv c d (f .getCurrentPositions) := hf .getCurrentPositions
  have hpositions : (fun symbol => getCurrentPositions symbol "spot" (scaleWorld c x.2).trades) =
      fun symbol => (getCurrentPositions symbol "spot" x.2.trades).map (scalePosition c) :=
    funext fun symbol => getCurrentPositions_scaled symbol "spot" x.2.trades
  rw [call_act, call_act]
  simp only [exec, hread, scaleEnv]
  cases (f .getCurrentPositions).fault with
  | none => exact congrArg (fun r => (Except.ok r, scaleProcess c x)) hpositions
  | some late => rfl

end Positions

section Methods

variable {S : Strategy} {c d : ℚ} {cfg : Bybit.Config} {f f' : Op → Env}

theorem buyTrade_scaled (decision : Decision) (qty : ℚ) :
    S.buyTrade (scaleDecision c decision) qty = scaleTrade c (S.buyTrade decision qty) := by
  simp [Strategy.buyTrade, TradingLoop.filledTrade, scaleTrade, scaleDecision, mul_left_comm]

theorem sellTrade_scaled (decision : Decision) (qty : ℚ) :
    S.sellTrade (scaleDecision c decision) qty = scaleTrade c (S.sellTrade decision qty) := by
  simp [Strategy.sellTrade, TradingLoop.filledTrade, scaleTrade, scaleDecision, mul_left_comm]

theorem candlesToDataframe_scaled (raw : Kline) :
    candlesToDataframe (scaleKline c d raw) = scaled c d (candlesToDataframe raw) := by
  have hrows : (scaleKline c d raw).filterMap id = scaled c d (raw.filterMap id) := by
    rw [scaleKline, scaled, List.filterMap_map, List.map_filterMap]
    rfl
  have hsorted := List.map_insertionSort (fun a b : ℤ × QuantStore.Ohlcv => a.1 ≤ b.1) (fun a b => a.1 ≤ b.1)
    (fun r => (r.1, scaleCandle c d r.2)) (raw.filterMap id) (fun _ _ _ _ => Iff.rfl)
  rw [candlesToDataframe, candlesToDataframe, hrows, scaled, scaled, ← hsorted]
  have hdestutter : ∀ df : DataFrame, scaled c d (df.destutter (fun a b => a.1 ≠ b.1)) =
      (scaled c d df).destutter (fun a b => a.1 ≠ b.1) := fun df => List.map_destutter (fun _ _ _ _ => Iff.rfl)
  exact (hdestutter _).symm

variable (hc : 0 < c) (hf : Answers c d f f') (hbase : Bybit.baseCurrency S.symbol ≠ "USDT")

include hc hf hbase

theorem scales_executeBuy (decision : Decision) :
    Scales c cfg f f' id (S.executeBuy decision) (S.executeBuy (scaleDecision c decision)) := by
  refine scales_bind scales_get (fun t => ?_)
  change Scales c cfg f f' id (if t.long then waitBar else _) (if t.long then waitBar else _)
  split
  · exact scales_waitBar
  · refine scales_bind (scales_calculateSafeOrderSize hc hf hbase .buy) (fun safeQty => ?_)
    cases safeQty with
    | none => exact scales_waitBar
    | some q =>
        refine scales_bind (scales_placeOrder hc hf hbase .buy (some q)) (fun success => ?_)
        cases success with
        | false => exact scales_waitBar
        | true =>
            refine scales_bind (scales_modify (fun _ => rfl)) (fun _ => ?_)
            rw [buyTrade_scaled]
            exact scales_addTrade hf _

theorem scales_executeSell (decision : Decision) :
    Scales c cfg f f' id (S.executeSell decision) (S.executeSell (scaleDecision c decision)) := by
  refine scales_bind scales_get (fun t => ?_)
  change Scales c cfg f f' id (if !t.long then waitBar else _) (if !t.long then waitBar else _)
  split
  · exact scales_waitBar
  · refine scales_bind (scales_placeOrder hc hf hbase .sell none) (fun success => ?_)
    cases success with
    | false => exact scales_waitBar
    | true =>
        refine scales_bind scales_get (fun t => ?_)
        dsimp only
        rw [sellTrade_scaled]
        exact scales_bind (scales_addTrade hf _) (fun _ => scales_modify (fun _ => rfl))

theorem scales_follow (decision : Decision) (frame : List FrameRow) :
    Scales c cfg f f' id (S.follow decision frame)
      (S.follow (scaleDecision c decision) (frame.map (scaleFrameRow c d))) := by
  rw [Strategy.follow, Strategy.follow]
  by_cases hframe : frame = []
  · rw [if_pos hframe, if_pos (by rw [hframe]; rfl)]
    exact scales_throw id _
  · rw [if_neg hframe, if_neg (by simpa using hframe)]
    refine scales_bind (scales_modify (fun t => ?_)) (fun _ => scales_bind scales_get (fun t =>
      scales_bind (scales_addSignalLog hf _) (fun _ => ?_)))
    · rw [decidedStop_scaled]
      rfl
    · obtain ⟨signal, reason, stop⟩ := decision
      cases signal with
      | buy => exact scales_executeBuy hc hf hbase _
      | sell => exact scales_executeSell hc hf hbase _
      | hold => exact scales_waitBar

variable (hd : 0 < d)

include hd

/-- What a round does once it has its frame. -/
theorem scales_decided (frame : List FrameRow) (htfBullish htfDataSufficient : Bool) (t : Trader) :
    Scales c cfg f f' id
      (do
        let decision ← ofOption "decide" (S.engine.decide (frame.map FrameRow.indicators) htfBullish htfDataSufficient
          t.long t.stop t.barsSinceTrade)
        S.follow decision frame)
      (do
        let decision ← ofOption "decide" (S.engine.decide ((frame.map (scaleFrameRow c d)).map FrameRow.indicators)
          htfBullish htfDataSufficient t.long (t.stop.map (c * ·)) t.barsSinceTrade)
        S.follow decision (frame.map (scaleFrameRow c d))) := by
  have hrows : (frame.map (scaleFrameRow c d)).map FrameRow.indicators =
      (frame.map FrameRow.indicators).map (scaleRow c d) := by
    rw [List.map_map, List.map_map]
    rfl
  rw [hrows, decide_scaled hc hd]
  exact scales_bind (scales_ofOption _ rfl) (fun decision => scales_follow hc hf hbase decision frame)

variable (hsqrt : Homogeneous S.sqrt)

include hsqrt

theorem scales_executeSingle : Scales c cfg f f' id S.executeSingle S.executeSingle := by
  refine scales_bind (scales_read _ _) (fun interval => scales_bind (scales_read _ _) (fun limit =>
    scales_bind (scales_getKlineData hf interval limit) (fun raw => ?_)))
  dsimp only
  rw [candlesToDataframe_scaled]
  by_cases hcandles : candlesToDataframe raw = []
  · rw [if_pos hcandles, if_pos (by rw [hcandles]; rfl)]
    exact scales_pure rfl
  · rw [if_neg hcandles, if_neg (by simpa [scaled] using hcandles)]
    exact scales_bind (scales_ofOption _ (buildFrame_scaled hc hsqrt S.engine)) (fun frame =>
      scales_bind scales_get (fun t => scales_decided hc hf hbase hd frame false false t))

theorem scales_executeDual : Scales c cfg f f' id S.executeDual S.executeDual := by
  refine scales_bind (scales_read _ _) (fun slow => scales_bind (scales_read _ _) (fun htfInterval =>
    scales_bind (scales_getKlineData hf htfInterval _) (fun htfRaw => scales_bind (scales_read _ _) (fun ltfInterval =>
    scales_bind (scales_read _ _) (fun limit => scales_bind (scales_getKlineData hf ltfInterval limit)
    (fun ltfRaw => ?_))))))
  dsimp only
  rw [candlesToDataframe_scaled, candlesToDataframe_scaled]
  by_cases hcandles : candlesToDataframe ltfRaw = []
  · rw [if_pos hcandles, if_pos (by rw [hcandles]; rfl)]
    exact scales_pure rfl
  · rw [if_neg hcandles, if_neg (by simpa [scaled] using hcandles), htfIsBullish_scaled hc, length_scaled]
    exact scales_bind (scales_read _ _) (fun htfBullish =>
      scales_bind (scales_ofOption _ (buildFrame_scaled hc hsqrt S.engine)) (fun frame =>
      scales_bind scales_get (fun t => scales_decided hc hf hbase hd frame htfBullish _ t)))

theorem scales_turn : Scales c cfg f f' id S.turn S.turn := by
  refine scales_bind scales_get (fun t => ?_)
  change Scales c cfg f f' id (if t.isActive then _ else pure ()) (if t.isActive then _ else pure ())
  split
  · refine scales_swallow ?_
    rw [Strategy.executeStrategy]
    split
    · exact scales_executeDual hc hf hbase hd hsqrt
    · exact scales_executeSingle hc hf hbase hd hsqrt
  · exact scales_pure rfl

omit hc hbase hd hsqrt in
theorem scales_startTrading : Scales c cfg f f' id S.startTrading S.startTrading := by
  refine scales_bind (scales_swallow ?_) (fun _ => scales_modify (fun _ => rfl))
  refine scales_bind (scales_getCurrentPositions hf) (fun positions => ?_)
  dsimp only
  have hqty : (((positions S.symbol).map (scalePosition c)).map CurrentPosition.totalQuantity).getD 0 =
      ((positions S.symbol).map CurrentPosition.totalQuantity).getD 0 := by
    rw [Option.map_map]
    rfl
  rw [hqty]
  exact scales_modify (fun _ => rfl)

end Methods

/-- An event of one run and the same event of a run whose quote currency and volumes are in
other units, with the answers to the calls it makes. -/
structure Rescaled (c d : ℚ) (l l' : Event × (Op → Env)) : Prop where
  event : l'.1 = scaleEvent c l.1
  answers : Answers c d l.2 l'.2

theorem next_scaled {S : Strategy} {cfg : Bybit.Config} {c d : ℚ} (hc : 0 < c) (hd : 0 < d)
    (hsqrt : Homogeneous S.sqrt) (hbase : Bybit.baseCurrency S.symbol ≠ "USDT") {l l' : Event × (Op → Env)}
    (h : Rescaled c d l l') (x : Process) :
    Process.next S (scaleConfig c cfg) (scaleProcess c x) l' = scaleProcess c (Process.next S cfg x l) := by
  obtain ⟨event, f⟩ := l
  obtain ⟨event', f'⟩ := l'
  obtain ⟨hevent, hf⟩ := h
  dsimp only at hevent hf
  subst hevent
  cases event with
  | build cooldownBars => rfl
  | start => exact congrArg Prod.snd (scales_startTrading hf x)
  | turn => exact congrArg Prod.snd (scales_turn hc hf hbase hd hsqrt x)
  | stop => rfl
  | other trade => simp [Process.next, scaleEvent, scaleProcess, scaleWorld]

/-- A strategy loop does not depend on the unit of its quote currency, nor on that of the
volumes: over any run, if prices, dollars and order limits are in another unit, it takes the
same decisions and trades the same quantities, and the prices and stops that it records and
carries along differ by just that unit. -/
theorem loop_unit_free {S : Strategy} {cfg : Bybit.Config} {c d : ℚ} (hc : 0 < c) (hd : 0 < d)
    (hsqrt : Homogeneous S.sqrt) (hbase : Bybit.baseCurrency S.symbol ≠ "USDT") {ls ls' : List (Event × (Op → Env))}
    (h : List.Forall₂ (Rescaled c d) ls ls') (x : Process) :
    ls'.foldl (Process.next S (scaleConfig c cfg)) (scaleProcess c x) =
      scaleProcess c (ls.foldl (Process.next S cfg) x) := by
  induction h generalizing x with
  | nil => rfl
  | cons hl _ ih =>
      rw [List.foldl_cons, List.foldl_cons, next_scaled hc hd hsqrt hbase hl]
      exact ih _

/-- The square root of a square, which other values do not have here. -/
def exactSqrt (x : ℚ) : ℚ := if Rat.sqrt x * Rat.sqrt x = x then Rat.sqrt x else 0

theorem exactSqrt_mul_self (q : ℚ) : exactSqrt (q * q) = |q| := by
  rw [exactSqrt, if_pos ((Rat.exists_mul_self _).1 ⟨q, rfl⟩), Rat.sqrt_eq]

theorem exactSqrt_eq_zero {x : ℚ} (h : ¬ ∃ q, q * q = x) : exactSqrt x = 0 := if_neg (mt (Rat.exists_mul_self x).2 h)

theorem homogeneous_exactSqrt : Homogeneous exactSqrt := by
  intro c x hc
  by_cases hx : ∃ q, q * q = x
  · obtain ⟨q, rfl⟩ := hx
    have hsquare : c ^ 2 * (q * q) = c * q * (c * q) := by ring
    rw [hsquare, exactSqrt_mul_self, exactSqrt_mul_self, abs_mul, abs_of_pos hc]
  · have hnone : ¬ ∃ q, q * q = c ^ 2 * x := by
      rintro ⟨q, hq⟩
      refine hx ⟨q / c, ?_⟩
      rw [div_mul_div_comm, hq, sq, mul_div_cancel_left₀ x (mul_pos hc hc).ne']
    rw [exactSqrt_eq_zero hnone, exactSqrt_eq_zero hx, mul_zero]

def squared : Strategy := { quick with sqrt := exactSqrt }

/-- Dollars in cents, and volumes in thousands. -/
theorem loop_unit_free_cents :
    (buyAndRestart.map (fun l => (scaleEvent 100 l.1, fun _ => scaleEnv 100 (1 / 1000) rising))).foldl
        (Process.next squared (scaleConfig 100 ⟨true, 30, 5, 80⟩))
        (scaleProcess 100 (Strategy.fresh 3, ⟨[], []⟩)) =
      scaleProcess 100 (buyAndRestart.foldl (Process.next squared ⟨true, 30, 5, 80⟩)
        (Strategy.fresh 3, ⟨[], []⟩)) := by
  refine loop_unit_free (d := 1 / 1000) (by norm_num) (by norm_num) homogeneous_exactSqrt (by decide +kernel) ?_ _
  refine List.forall₂_map_right_iff.2 (List.forall₂_same.2 (fun l hl => ⟨rfl, ?_⟩))
  obtain ⟨event, -, rfl⟩ := List.mem_map.1 hl
  exact fun _ => rfl

end Autr.Strategies.LoopUnits
