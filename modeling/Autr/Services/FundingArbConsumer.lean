import Autr.Services.FundingArbExecutor

namespace Autr.Services.FundingArbConsumer

open Autr.Async Autr.Infra Bybit Decimal Strategies.FundingArb Executor FundingArbExecutor

def stateTtl : ℚ := 300

def fundingArbEnabledKey (symbol : String) : String :=
  "trading:funding_arb:" ++ String.ofList (Text.upper symbol.toList)

def fundingArbStateKey (symbol : String) : String :=
  "state:funding_arb:" ++ String.ofList (Text.upper symbol.toList)

structure CycleState where
  symbol : String
  enabled : Bool
  cycle : ℕ
  decision : Option Decision
  arbStatus : Option Status
  execResult : Option FundingArbExecutor.Outcome
  error : Option Exc

variable (dumps : CycleState → String) (p : Params)

def writeState (state : CycleState) : Svc Unit :=
  await (.set (fundingArbStateKey state.symbol) (dumps state) (some stateTtl))

def execute (decision : Decision) (spotPrice perpPrice : ℚ) : Svc (Option FundingArbExecutor.Outcome) :=
  match decision.signal with
  | .open => some <$> openPosition p spotPrice perpPrice
  | .close | .emergencyClose => some <$> FundingArbExecutor.closePosition p decision.reason
  | .hold => return none

/-- A cycle once the ticker is known: the price, the status, the decision, its execution. -/
def trade (count : ℕ) (ticker : Ticker) : Svc Unit := do
  let spotPrice ← currentPriceOf p.symbol
  let arbStatus ← getArbStatus p
  let decision := decide p [ticker.fundingRate] spotPrice ticker.markPrice arbStatus.inPosition
    arbStatus.marginRatio
  let execResult ← execute p decision spotPrice ticker.markPrice
  writeState dumps ⟨p.symbol, true, count, some decision, some arbStatus, execResult, none⟩

def cycle (count : ℕ) : Svc Unit := do
  let enabled ← await (.get (fundingArbEnabledKey p.symbol))
  if enabled ≠ some "1" then writeState dumps ⟨p.symbol, false, count, none, none, none, none⟩
  else
    match ← await (.getLinearTicker p.symbol) with
    | none => return ()
    | some ticker => trade dumps p count ticker

/-- The loop over a number of cycles; a cycle that raises only reports its error. -/
def run (cycles : ℕ) : Svc Unit :=
  Prog.forEach (fun n => Prog.attempt (cycle dumps p (n + 1))
    (fun e => writeState dumps ⟨p.symbol, true, n + 1, none, none, none, some e⟩)) (List.range cycles)

end Autr.Services.FundingArbConsumer
