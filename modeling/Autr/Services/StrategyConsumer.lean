import Autr.Services.Executor

namespace Autr.Services.StrategyConsumer

open Autr.Infra Bybit TradeTracker

inductive Signal
  | buy
  | sell
  | hold
  deriving DecidableEq

/-- What an engine decides; each kind of engine fills in one of the two stops. -/
structure Decision where
  signal : Signal
  reason : String
  closePrice : ℚ
  trailingStop : Option ℚ
  stopPrice : Option ℚ

structure Message where
  symbol : String
  strategy : String
  side : Side
  sigId : String
  closePrice : ℚ

structure Consumer where
  strategyName : String
  symbol : String
  inPosition : Bool
  trailingStop : Option ℚ
  barsSinceTrade : ℕ
  lastSignal : Signal
  lastReason : String
  lastClose : ℚ

/-- What one tick brings: the decision of the engine unless there are too few candles,
whether trading is enabled, the strategy and regime an automatic switch would change to,
and the stamp of a new signal id. -/
structure Tick where
  decision : Option Decision
  enabled : Bool
  suggested : Option (String × String)
  stamp : String

def restoreState (openPositions : List Position) (s : Consumer) : Consumer :=
  { s with inPosition := 0 < Executor.localQty openPositions }

/-- Python's `or` on two stops, where a stop of zero counts as none. -/
def stopOf (d : Decision) : Option ℚ := if d.trailingStop.any (· ≠ 0) then d.trailingStop else d.stopPrice

def observe (d : Decision) (s : Consumer) : Consumer :=
  { s with
    barsSinceTrade := s.barsSinceTrade + 1
    trailingStop := stopOf d
    lastSignal := d.signal
    lastReason := d.reason
    lastClose := d.closePrice }

/-- The strategy is switched only while no position is held. -/
def maybeAutoSwitch (suggested : Option (String × String)) (s : Consumer) : Consumer :=
  match suggested with
  | some (strategy, regime) =>
      if s.inPosition then s
      else { s with strategyName := strategy, trailingStop := none, lastReason := "auto_switch:" ++ regime }
  | none => s

def signalId (strategy symbol stamp : String) : String :=
  "sig-" ++ String.ofList (Text.lower strategy.toList) ++ "-" ++ String.ofList (Text.upper symbol.toList) ++
    "-" ++ stamp

def message (side : Side) (closePrice : ℚ) (stamp : String) (s : Consumer) : Message :=
  ⟨s.symbol, s.strategyName, side, signalId s.strategyName s.symbol stamp, closePrice⟩

/-- The flag moves before the signal is pushed, and whatever becomes of the signal. -/
def publishSignal (side : Side) (closePrice : ℚ) (stamp : String) (s : Consumer) : Consumer × Option Message :=
  ({ s with inPosition := side = .buy, barsSinceTrade := 0 }, some (message side closePrice stamp s))

def processTick (tick : Tick) (s : Consumer) : Consumer × Option Message :=
  match tick.decision with
  | none => (s, none)
  | some d =>
      let s := maybeAutoSwitch tick.suggested (observe d s)
      if tick.enabled then
        match d.signal, s.inPosition with
        | .buy, false => publishSignal .buy d.closePrice tick.stamp s
        | .sell, true => publishSignal .sell d.closePrice tick.stamp s
        | _, _ => (s, none)
      else (s, none)

def turning (inPosition : Bool) : Side := if inPosition then .sell else .buy

theorem maybeAutoSwitch_keeps (suggested : Option (String × String)) (s : Consumer) :
    (maybeAutoSwitch suggested s).inPosition = s.inPosition ∧ (maybeAutoSwitch suggested s).symbol = s.symbol := by
  cases suggested with
  | none => exact ⟨rfl, rfl⟩
  | some suggestion =>
      rw [maybeAutoSwitch]
      split <;> exact ⟨rfl, rfl⟩

theorem processTick_symbol (tick : Tick) (s : Consumer) : (processTick tick s).1.symbol = s.symbol := by
  unfold processTick
  split
  · rfl
  next d _ =>
    have hsymbol := (maybeAutoSwitch_keeps tick.suggested (observe d s)).2
    dsimp only
    split
    · split <;> exact hsymbol
    · exact hsymbol

theorem processTick_cases (tick : Tick) (s : Consumer) :
    ((processTick tick s).2 = none ∧ (processTick tick s).1.inPosition = s.inPosition) ∨
    ∃ m, (processTick tick s).2 = some m ∧ m.symbol = s.symbol ∧ m.side = turning s.inPosition ∧
      (processTick tick s).1.inPosition = !s.inPosition := by
  unfold processTick
  split
  · exact .inl ⟨rfl, rfl⟩
  next d _ =>
    obtain ⟨hflag, hsymbol⟩ := maybeAutoSwitch_keeps tick.suggested (observe d s)
    change _ = s.inPosition at hflag
    dsimp only
    split
    · split
      · next hheld =>
          rw [← hflag, hheld]
          exact .inr ⟨_, rfl, hsymbol, rfl, rfl⟩
      · next hheld =>
          rw [← hflag, hheld]
          exact .inr ⟨_, rfl, hsymbol, rfl, rfl⟩
      · exact .inl ⟨rfl, hflag⟩
    · exact .inl ⟨rfl, hflag⟩

end Autr.Services.StrategyConsumer
