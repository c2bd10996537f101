import Autr.Decimal
import Mathlib.Algebra.Order.Group.Unbundled.Abs
import Mathlib.Algebra.Order.Ring.Rat

namespace Autr.Strategies.FundingArb

open Decimal

structure Params where
  symbol : String
  fundingRateEntryThreshold : ℚ
  fundingRateExitThreshold : ℚ
  fundingRateLookback : ℤ
  maxNotionalUsd : ℚ
  leverage : ℤ
  maxBasisDivergencePct : ℚ
  marginSafetyRatio : ℚ

def defaultParams : Params where
  symbol := "BTCUSDT"
  fundingRateEntryThreshold := 1 / 10000
  fundingRateExitThreshold := 3 / 100000
  fundingRateLookback := 3
  maxNotionalUsd := 30
  leverage := 1
  maxBasisDivergencePct := 1
  marginSafetyRatio := 3 / 10

inductive Signal
  | open
  | close
  | emergencyClose
  | hold
  deriving DecidableEq

inductive Reason
  | normal
  | noFundingData
  | basisDivergence (basisPct : ℚ)
  | marginLow (marginRatio : ℚ)
  | fundingBelowExit (avgFunding : ℚ)
  | fundingNegative (avgFunding : ℚ)
  | collectingFunding
  | fundingAboveEntry (avgFunding : ℚ)
  | waiting
  deriving DecidableEq

structure Decision where
  signal : Signal
  reason : Reason
  fundingRate : ℚ
  spotPrice : ℚ
  perpPrice : ℚ
  basisPct : ℚ
  deriving DecidableEq

/-- `rates[:lookback]`, where a negative bound counts from the end. -/
def recent (lookback : ℤ) (rates : List ℚ) : List ℚ :=
  if 0 ≤ lookback then rates.take lookback.toNat else rates.take (rates.length - lookback.natAbs)

def basisOf (spotPrice perpPrice : ℚ) : ℚ :=
  if 0 < spotPrice then (perpPrice - spotPrice) / spotPrice * 100 else 0

def judge (p : Params) (avgFunding basisPct : ℚ) (inPosition : Bool) (marginRatio : Option ℚ) :
    Signal × Reason :=
  if inPosition then
    if p.maxBasisDivergencePct < |basisPct| then (.emergencyClose, .basisDivergence basisPct)
    else if marginRatio.any (· < p.marginSafetyRatio) then (.emergencyClose, .marginLow (marginRatio.getD 0))
    else if avgFunding < p.fundingRateExitThreshold then (.close, .fundingBelowExit avgFunding)
    else if avgFunding < 0 then (.close, .fundingNegative avgFunding)
    else (.hold, .collectingFunding)
  else if p.fundingRateEntryThreshold ≤ avgFunding then (.open, .fundingAboveEntry avgFunding)
  else (.hold, .waiting)

def decide (p : Params) (fundingRates : List ℚ) (spotPrice perpPrice : ℚ) (inPosition : Bool)
    (marginRatio : Option ℚ) : Decision :=
  let lookback := min p.fundingRateLookback fundingRates.length
  if lookback = 0 then ⟨.hold, .noFundingData, 0, spotPrice, perpPrice, 0⟩
  else
    let avgFunding := (recent lookback fundingRates).sum / lookback
    let basisPct := basisOf spotPrice perpPrice
    let verdict := judge p avgFunding basisPct inPosition marginRatio
    ⟨verdict.1, verdict.2, avgFunding, spotPrice, perpPrice, roundTo 4 basisPct⟩

/-- Whether the engine opens on the rates when it holds nothing; no price matters there. -/
def opens (p : Params) (fundingRates : List ℚ) : Bool :=
  (decide p fundingRates 0 0 false none).signal = .open

theorem judge_open_iff (p : Params) (avgFunding basisPct : ℚ) (inPosition : Bool) (marginRatio : Option ℚ) :
    (judge p avgFunding basisPct inPosition marginRatio).1 = .open ↔
      inPosition = false ∧ p.fundingRateEntryThreshold ≤ avgFunding := by
  cases inPosition <;> simp only [judge, if_true, Bool.false_eq_true, if_false] <;> split_ifs <;> simp_all

theorem decide_open_iff (p : Params) (fundingRates : List ℚ) (spotPrice perpPrice : ℚ) (inPosition : Bool)
    (marginRatio : Option ℚ) :
    (decide p fundingRates spotPrice perpPrice inPosition marginRatio).signal = .open ↔
      inPosition = false ∧ opens p fundingRates = true := by
  rw [opens, decide_eq_true_iff, decide, decide]
  dsimp only
  split
  · simp
  · simp only [judge_open_iff, true_and]

end Autr.Strategies.FundingArb
