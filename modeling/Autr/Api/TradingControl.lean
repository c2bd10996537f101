import Autr.Infra.Redis
import Autr.Services.StrategyPresets
import Autr.Text

namespace Autr.Api.TradingControl

open Infra Strategies StrategyParams Services StrategyPresets

def upper (s : String) : String := String.ofList (Text.upper s.toList)

def lower (s : String) : String := String.ofList (Text.lower s.toList)

def tradingEnabledKey (symbol : String) : String := "trading:enabled:" ++ upper symbol

def activeStrategyKey (symbol : String) : String := "config:strategy:" ++ upper symbol

def supportedAssets : List String := ["BTCUSDT", "XRPUSDT", "SOLUSDT"]

/-- The environment of the server and the presets, with the built-in ones among them. -/
structure App where
  py : Python
  backend : Redis.Backend
  strategySymbol : String
  tradingStrategy : String
  presets : String → String → Option Saved

def App.symbol (app : App) : String := upper app.strategySymbol

/-- The strategy object of the server, whose loop is never entered there. -/
structure Strategy where
  name : String
  isActive : Bool
  params : ParamsObject
  deriving DecidableEq

structure State where
  redis : Redis.Store
  tradingClient : Bool
  tradingStrategy : Option Strategy
  buildStrategy : Bool

inductive Failure
  | http (status : ℕ) (detail : String)
  | typeError (missing : List String)
  | overflowError
  deriving DecidableEq

/-- What a caller passes to `build_strategy`; a value that is not looked at is there or not. -/
structure Arguments where
  strategyName : Option String
  client : Bool
  tradeTrackerDb : Bool
  presetOverrides : Option (List (String × Value))

/-- The parameters without a default that are not passed. -/
def Arguments.missing (a : Arguments) : List String :=
  (if a.strategyName.isSome then [] else ["strategy_name"]) ++ (if a.client then [] else ["client"]) ++
    (if a.tradeTrackerDb then [] else ["trade_tracker_db"])

/-- The strategy that an object names in its status. -/
def statusName : ParamsClass → String
  | .breakoutVolume => "breakout_volume"
  | .meanReversion => "mean_reversion"
  | .dualTimeframe => "dual_timeframe"
  | .regimeTrend => "regime_trend"
  | .fundingArb => "funding_arb"

def buildStrategy (app : App) (a : Arguments) : Except Failure Strategy :=
  match a.missing, a.strategyName with
  | [], some name =>
      match StrategyPresets.buildStrategy app.py name app.symbol (a.presetOverrides.getD []) with
      | some params => .ok ⟨statusName (builtClass name), false, params⟩
      | none => .error .overflowError
  | missing, _ => .error (.typeError missing)

def onStartup (app : App) (redis : Redis.Store) : Except Failure State := do
  let strategyName := lower app.tradingStrategy
  let presetOverrides := setDefaultSymbol app.symbol (loadPresetOverrides app.presets strategyName app.symbol)
  let strategy ← buildStrategy app ⟨some strategyName, true, true, some presetOverrides⟩
  return ⟨redis, true, some strategy, true⟩

inductive Request
  | startTrading
  | stopTrading
  | changeStrategy (strategy : String)
  | changeSymbol (symbol : String)
  deriving DecidableEq

inductive Answer
  | message (text symbol : String)
  | strategyChanged (strategy symbol : String)
  | symbolChanged (strategy symbol : String) (status : Strategy)
  | failed (failure : Failure)
  deriving DecidableEq

def listed (names : List String) : String := "[" ++ ", ".intercalate (names.map (fun n => "'" ++ n ++ "'")) ++ "]"

def validateStrategyName (strategy : String) : Except Failure String :=
  let strategyName := lower (Text.trim strategy)
  if strategyName ∈ availableStrategies then .ok strategyName
  else .error (.http 422 ("Unknown strategy '" ++ strategyName ++ "'. Available: " ++ listed availableStrategies))

def validateSymbol (symbol : String) : Except Failure String :=
  let normalizedSymbol := upper (Text.trim symbol)
  if normalizedSymbol ∈ supportedAssets then .ok normalizedSymbol
  else .error (.http 422 ("Unsupported symbol '" ++ normalizedSymbol ++ "'. Supported: " ++ listed supportedAssets))

/-- `overrides[key] = value`. -/
def setItem (key : String) (value : Value) (overrides : List (String × Value)) : List (String × Value) :=
  if key ∈ overrides.map Prod.fst then overrides.map (fun e => if e.1 = key then (key, value) else e)
  else overrides ++ [(key, value)]

def startTrading (app : App) (now : ℚ) (s : State) : Answer × State :=
  let key := tradingEnabledKey app.symbol
  let (already, redis) := Redis.get app.backend now key s.redis
  if already.getD "" ≠ "" then (.message "Trading is already active" app.symbol, { s with redis })
  else (.message "Auto-trading started" app.symbol, { s with redis := Redis.set now key "1" none redis })

def stopTrading (app : App) (s : State) : Answer × State :=
  (.message "Auto-trading stopped" app.symbol,
    { s with redis := Redis.releaseLock (tradingEnabledKey app.symbol) s.redis })

def changeStrategy (app : App) (now : ℚ) (strategy : String) (s : State) : Answer × State :=
  match validateStrategyName strategy with
  | .error failure => (.failed failure, s)
  | .ok strategyName =>
      (.strategyChanged strategyName app.symbol,
        { s with redis := Redis.set now (activeStrategyKey app.symbol) strategyName none s.redis })

/-- The new strategy of `change_symbol`, under its name and for its symbol. -/
def nextStrategy (app : App) (symbol : String) (s : State) : Except Failure (String × String × Strategy) := do
  if s.tradingStrategy.any Strategy.isActive then throw (.http 400 "Stop trading first.")
  let strategyName ← validateStrategyName ((s.tradingStrategy.map Strategy.name).getD "regime_trend")
  let nextSymbol ← validateSymbol symbol
  if !s.buildStrategy then throw (.http 500 "Strategy factory not available.")
  let presetOverrides := setItem "symbol" (.str nextSymbol) (loadPresetOverrides app.presets strategyName nextSymbol)
  if !s.tradingClient then throw (.http 500 "Trading client not initialized")
  -- the database of trades is not among the arguments
  let newStrategy ← buildStrategy app ⟨some strategyName, true, false, some presetOverrides⟩
  return (strategyName, nextSymbol, newStrategy)

def changeSymbol (app : App) (symbol : String) (s : State) : Answer × State :=
  match nextStrategy app symbol s with
  | .error failure => (.failed failure, s)
  | .ok (strategyName, nextSymbol, newStrategy) =>
      (.symbolChanged strategyName nextSymbol newStrategy, { s with tradingStrategy := some newStrategy })

def handle (app : App) (now : ℚ) (s : State) : Request → Answer × State
  | .startTrading => startTrading app now s
  | .stopTrading => stopTrading app s
  | .changeStrategy strategy => changeStrategy app now strategy s
  | .changeSymbol symbol => changeSymbol app symbol s

/-- A request with the state it meets and its answer. -/
structure Visit where
  now : ℚ
  request : Request
  state : State
  answer : Answer

def visits (app : App) : State → List (ℚ × Request) → List Visit
  | _, [] => []
  | s, (now, request) :: requests =>
      ⟨now, request, s, (handle app now s request).1⟩ :: visits app (handle app now s request).2 requests

def Answer.changesSymbol : Answer → Bool
  | .symbolChanged _ _ _ => true
  | _ => false

/-- Automatic trading is stopped wherever the symbol is changed. -/
def ChangesWhenStopped (app : App) (s : State) (requests : List (ℚ × Request)) : Prop :=
  ∀ v ∈ visits app s requests, v.answer.changesSymbol = true →
    ¬ Redis.Live app.backend v.now (tradingEnabledKey app.symbol) v.state.redis

/-- What the server has after its start. -/
structure Ready (s : State) : Prop where
  tradingClient : s.tradingClient = true
  buildStrategy : s.buildStrategy = true
  strategy : ∃ cls params, cls ≠ .fundingArb ∧ s.tradingStrategy = some ⟨statusName cls, false, params⟩

variable {app : App}

theorem buildStrategy_ok {a : Arguments} {strategy : Strategy} (h : buildStrategy app a = .ok strategy) :
    ∃ name params, strategy = ⟨statusName (builtClass name), false, params⟩ := by
  rw [buildStrategy] at h
  split at h
  next name _ _ =>
    split at h
    next params _ =>
      cases h
      exact ⟨name, params, rfl⟩
    · cases h
  · cases h

theorem builtClass_ne (name : String) : builtClass name ≠ .fundingArb := by
  unfold builtClass
  split_ifs <;> decide

theorem onStartup_ready {redis : Redis.Store} {s : State} (h : onStartup app redis = .ok s) :
    Ready s ∧ s.redis = redis := by
  rw [onStartup] at h
  cases hbuilt : buildStrategy app ⟨some (lower app.tradingStrategy), true, true, some (setDefaultSymbol app.symbol
      (loadPresetOverrides app.presets (lower app.tradingStrategy) app.symbol))⟩ with
  | error failure =>
      rw [hbuilt] at h
      cases h
  | ok strategy =>
      rw [hbuilt] at h
      cases h
      obtain ⟨name, params, rfl⟩ := buildStrategy_ok hbuilt
      exact ⟨⟨rfl, rfl, builtClass name, params, builtClass_ne name, rfl⟩, rfl⟩

theorem validateStrategyName_status {cls : ParamsClass} (h : cls ≠ .fundingArb) :
    validateStrategyName (statusName cls) = .ok (statusName cls) := by
  cases cls with
  | fundingArb => exact absurd rfl h
  | regimeTrend | breakoutVolume | meanReversion | dualTimeframe => decide +kernel

/-- A symbol that is supported comes as far as the call that lacks an argument. -/
theorem changeSymbol_ready {s : State} (h : Ready s) (symbol : String) :
    changeSymbol app symbol s =
      (.failed (match validateSymbol symbol with
        | .error failure => failure
        | .ok _ => .typeError ["trade_tracker_db"]), s) := by
  obtain ⟨hclient, hfactory, cls, params, hcls, hstrategy⟩ := h
  rw [changeSymbol, nextStrategy, hstrategy, hclient, hfactory]
  simp only [Option.any_some, Option.map_some, Option.getD_some, Bool.not_true, Bool.false_eq_true, if_false,
    validateStrategyName_status hcls]
  cases validateSymbol symbol with
  | error failure => rfl
  | ok nextSymbol => rfl

theorem handle_ready {s : State} (h : Ready s) (now : ℚ) (request : Request) : Ready (handle app now s request).2 := by
  obtain ⟨hclient, hfactory, hstrategy⟩ := h
  cases request with
  | startTrading =>
      rw [handle, startTrading]
      dsimp only
      split <;> exact ⟨hclient, hfactory, hstrategy⟩
  | stopTrading => exact ⟨hclient, hfactory, hstrategy⟩
  | changeStrategy strategy =>
      rw [handle, changeStrategy]
      split <;> exact ⟨hclient, hfactory, hstrategy⟩
  | changeSymbol symbol =>
      rw [handle, changeSymbol_ready ⟨hclient, hfactory, hstrategy⟩]
      exact ⟨hclient, hfactory, hstrategy⟩

theorem visits_ready {s : State} (h : Ready s) (requests : List (ℚ × Request)) :
    ∀ v ∈ visits app s requests, Ready v.state ∧ v.answer = (handle app v.now v.state v.request).1 := by
  induction requests generalizing s with
  | nil => intro v hv; cases hv
  | cons r requests ih =>
      intro v hv
      obtain rfl | hv := List.mem_cons.1 hv
      · exact ⟨h, rfl⟩
      · exact ih (handle_ready h r.1 r.2) v hv

theorem handle_changesSymbol {s : State} (h : Ready s) (now : ℚ) (request : Request) :
    (handle app now s request).1.changesSymbol = false := by
  cases request with
  | startTrading =>
      rw [handle, startTrading]
      dsimp only
      split <;> rfl
  | stopTrading => rfl
  | changeStrategy strategy =>
      rw [handle, changeStrategy]
      split <;> rfl
  | changeSymbol symbol =>
      rw [handle, changeSymbol_ready h]
      rfl

/-- No symbol is changed while automatic trading is enabled: after its start a server refuses
every change, or fails to build the strategy for it. -/
theorem change_symbol_when_stopped {redis : Redis.Store} {s : State} (h : onStartup app redis = .ok s)
    (requests : List (ℚ × Request)) : ChangesWhenStopped app s requests := by
  intro v hv hchanged
  obtain ⟨hready, hanswer⟩ := visits_ready (onStartup_ready h).1 requests v hv
  rw [hanswer, handle_changesSymbol hready] at hchanged
  cases hchanged

/-- A server on its defaults. -/
def defaults : App where
  py := wordless
  backend := .inMemory
  strategySymbol := "BTCUSDT"
  tradingStrategy := "regime_trend"
  presets _ _ := none

theorem change_symbol_when_started : ∃ s ∈ (onStartup defaults (fun _ => none)).toOption,
    ChangesWhenStopped defaults s [(0, .startTrading), (1, .changeSymbol "XRPUSDT"), (2, .stopTrading),
      (3, .changeSymbol "XRPUSDT")] :=
  ⟨_, rfl, change_symbol_when_stopped rfl _⟩

/-- The key of automatic trading as the requests leave it. -/
def Switched (app : App) (enabled : Bool) (redis : Redis.Store) : Prop :=
  redis (tradingEnabledKey app.symbol) = if enabled then some ⟨"1", none⟩ else none

def Request.switch (enabled : Bool) : Request → Bool
  | .startTrading => true
  | .stopTrading => false
  | .changeStrategy _ | .changeSymbol _ => enabled

theorem activeStrategyKey_ne (symbol symbol' : String) : tradingEnabledKey symbol ≠ activeStrategyKey symbol' :=
  Redis.ne_of_char 0 (by decide) (by decide) (by decide) (upper symbol) (upper symbol')

theorem live_iff_of_switched {enabled : Bool} {redis : Redis.Store} (h : Switched app enabled redis) (now : ℚ) :
    Redis.Live app.backend now (tradingEnabledKey app.symbol) redis ↔ enabled = true := by
  rw [Redis.Live, h]
  cases enabled <;> simp [Redis.Entry.live]

theorem get_of_switched {enabled : Bool} {redis : Redis.Store} (h : Switched app enabled redis) (now : ℚ) :
    Redis.get app.backend now (tradingEnabledKey app.symbol) redis = (if enabled then some "1" else none, redis) := by
  rw [Switched] at h
  cases enabled with
  | true =>
      rw [Redis.get, Redis.evict_of_live ((live_iff_of_switched h now).2 rfl), h]
      rfl
  | false => simp [Redis.get, Redis.evict, h]

theorem startTrading_redis {enabled : Bool} {s : State} (h : Switched app enabled s.redis) (now : ℚ) :
    (startTrading app now s).2.redis =
      if enabled then s.redis else Redis.set now (tradingEnabledKey app.symbol) "1" none s.redis := by
  rw [startTrading, get_of_switched h]
  cases enabled <;> simp

theorem handle_switched {enabled : Bool} {s : State} (h : Switched app enabled s.redis) (now : ℚ) (request : Request) :
    Switched app (request.switch enabled) (handle app now s request).2.redis := by
  cases request with
  | startTrading =>
      rw [handle, startTrading_redis h]
      cases enabled with
      | true => exact h
      | false => simp [Switched, Redis.set, Request.switch]
  | stopTrading => simp [Switched, handle, stopTrading, Request.switch, Redis.releaseLock]
  | changeStrategy strategy =>
      rw [handle, changeStrategy]
      cases validateStrategyName strategy with
      | error failure => exact h
      | ok strategyName =>
          have hkey : Redis.set now (activeStrategyKey app.symbol) strategyName none s.redis
              (tradingEnabledKey app.symbol) = s.redis (tradingEnabledKey app.symbol) :=
            Redis.set_of_ne (activeStrategyKey_ne app.symbol app.symbol)
          exact hkey.trans h
  | changeSymbol symbol =>
      rw [handle, changeSymbol]
      split <;> exact h

/-- Whether trading is enabled where each request comes. -/
def enabledAt : Bool → List (ℚ × Request) → List Bool
  | _, [] => []
  | enabled, (_, request) :: requests => enabled :: enabledAt (request.switch enabled) requests

/-- Automatic trading is enabled exactly where a start is the last switch before. -/
theorem visits_enabled {enabled : Bool} {s : State} (h : Switched app enabled s.redis)
    (requests : List (ℚ × Request)) :
    List.Forall₂ (fun v e => Redis.Live app.backend v.now (tradingEnabledKey app.symbol) v.state.redis ↔ e = true)
      (visits app s requests) (enabledAt enabled requests) := by
  induction requests generalizing enabled s with
  | nil => exact .nil
  | cons r requests ih => exact .cons (live_iff_of_switched h r.1) (ih (handle_switched h r.1 r.2))

end Autr.Api.TradingControl
