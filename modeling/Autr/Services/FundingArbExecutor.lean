import Autr.Services.Executor

namespace Autr.Services.FundingArbExecutor

open Autr.Async Autr.Infra Bybit Redis Decimal Strategies.FundingArb Executor

/-- Longer than the lock of the executor, as there are two legs. -/
def lockTtl : ℚ := 15

inductive Refusal
  | lockFailed
  | qtyTooSmall
  | noPerpPosition
  | perpShortFailed (error : OrderError)
  | spotBuyFailed (error : OrderError)
  | perpCloseFailed (error : OrderError)
  | spotSellFailed (error : OrderError)
  deriving DecidableEq

inductive Outcome
  | opened (spotQty perpQty : ℚ) (spotOrderId perpOrderId : String)
  | closed (spotQty perpQty : ℚ) (reason : Reason)
  | refused (reason : Refusal)
  deriving DecidableEq

def calcQty (p : Params) (price : ℚ) : Option ℚ :=
  if price ≤ 0 then none
  else
    let qty := floorTo (symbolPrecision p.symbol) (p.maxNotionalUsd / price)
    if qty ≤ 0 then none else some qty

def placeLinearOrder (symbol : String) (side : Side) (qty : ℚ) (reduceOnly : Bool) : Svc OrderResult :=
  await (.placeLinearOrder symbol side qty reduceOnly)

def withLock (symbol : String) (body : Svc Outcome) : Svc Outcome := do
  if ← await (.acquireLock (fundingArbLock symbol) lockTtl) then
    body.ensure (await (.releaseLock (fundingArbLock symbol)))
  else return .refused .lockFailed

/-- The spot leg of an opening; when it fails the short is bought back. -/
def buySpot (symbol : String) (qty spotPrice perpPrice : ℚ) (perpOrderId : String) (perpFilled : ℚ) :
    Svc Outcome := do
  match ← placeOrder symbol .buy (some qty) with
  | .failure error => do
      let rollback ← placeLinearOrder symbol .buy qty true
      notify (.arbBuyFailed symbol error rollback.isSuccess)
      return .refused (.spotBuyFailed error)
  | .success spotOrderId spotFilled => do
      notify (.arbOpened symbol spotFilled spotPrice perpFilled perpPrice)
      return .opened spotFilled perpFilled spotOrderId perpOrderId

def openLegs (symbol : String) (qty spotPrice perpPrice : ℚ) : Svc Outcome := do
  match ← placeLinearOrder symbol .sell qty false with
  | .failure error => do
      notify (.arbShortFailed symbol error)
      return .refused (.perpShortFailed error)
  | .success perpOrderId perpFilled => buySpot symbol qty spotPrice perpPrice perpOrderId perpFilled

def openSection (p : Params) (spotPrice perpPrice : ℚ) : Svc Outcome := do
  let _ ← await (.setLeverage p.symbol (toString p.leverage) (toString p.leverage))
  match calcQty p spotPrice with
  | none => return .refused .qtyTooSmall
  | some qty => openLegs p.symbol qty spotPrice perpPrice

def openPosition (p : Params) (spotPrice perpPrice : ℚ) : Svc Outcome :=
  withLock p.symbol (openSection p spotPrice perpPrice)

/-- The spot leg of a closing; when it fails the short stays closed. -/
def sellSpot (symbol : String) (qty : ℚ) (reason : Reason) (perpFilled : ℚ) : Svc Outcome := do
  match ← placeOrder symbol .sell (some qty) with
  | .failure error => do
      notify (.arbSellFailed symbol error)
      return .refused (.spotSellFailed error)
  | .success _ spotFilled => do
      notify (.arbClosed symbol reason spotFilled perpFilled)
      return .closed spotFilled perpFilled reason

def closeLegs (symbol : String) (qty : ℚ) (reason : Reason) : Svc Outcome := do
  match ← placeLinearOrder symbol .buy qty true with
  | .failure error => do
      notify (.arbCoverFailed symbol error)
      return .refused (.perpCloseFailed error)
  | .success _ perpFilled => sellSpot symbol qty reason perpFilled

/-- The size of a position; a read that failed shows none. -/
def perpSize (position : Option LinearPosition) : ℚ := (position.map LinearPosition.size).getD 0

def closeSection (p : Params) (reason : Reason) : Svc Outcome := do
  let position ← await (.getLinearPositions p.symbol)
  if perpSize position ≤ 0 then return .refused .noPerpPosition
  else closeLegs p.symbol (roundTo (symbolPrecision p.symbol) (perpSize position)) reason

def closePosition (p : Params) (reason : Reason) : Svc Outcome :=
  withLock p.symbol (closeSection p reason)

inductive ArbCall
  | opening (spotPrice perpPrice : ℚ)
  | closing (reason : Reason)

def ArbCall.prog (p : Params) : ArbCall → Svc Outcome
  | .opening spotPrice perpPrice => openPosition p spotPrice perpPrice
  | .closing reason => closePosition p reason

/-- The dictionary of `get_arb_status`, which on an error holds only that error. -/
inductive Status
  | known (inPosition : Bool) (perpSize perpEntryPrice perpUnrealizedPnl fundingRate : ℚ)
      (nextFundingTime : ℤ) (markPrice : ℚ) (marginRatio : Option ℚ) (totalEquity availableBalance : ℚ)
  | error (e : Exc)
  deriving DecidableEq

def Status.inPosition : Status → Bool
  | .known inPosition _ _ _ _ _ _ _ _ _ => inPosition
  | .error _ => false

def Status.marginRatio : Status → Option ℚ
  | .known _ _ _ _ _ _ _ marginRatio _ _ => marginRatio
  | .error _ => none

def marginRatioOf (w : Wallet) : ℚ :=
  if 0 < w.totalEquity then w.totalAvailableBalance / w.totalEquity else 1

def statusOf (position : Option LinearPosition) (wallet : Option Wallet) (ticker : Option Ticker) : Status :=
  .known (0 < perpSize position) (perpSize position) ((position.map LinearPosition.entryPrice).getD 0)
    ((position.map LinearPosition.unrealizedPnl).getD 0) ((ticker.map Ticker.fundingRate).getD 0)
    ((ticker.map Ticker.nextFundingTime).getD 0) ((ticker.map Ticker.markPrice).getD 0)
    (wallet.map marginRatioOf) ((wallet.map Wallet.totalEquity).getD 0)
    ((wallet.map Wallet.totalAvailableBalance).getD 0)

/-- The three reads are gathered; none of them depends on another. -/
def getArbStatus (p : Params) : Svc Status :=
  Prog.attempt
    (do
      let position ← await (.getLinearPositions p.symbol)
      let wallet ← await .getWalletBalance
      let ticker ← await (.getLinearTicker p.symbol)
      return statusOf position wallet ticker)
    (fun e => return .error e)

theorem calcQty_pos {p : Params} {price qty : ℚ} (h : calcQty p price = some qty) : 0 < qty := by
  unfold calcQty at h
  dsimp only at h
  split_ifs at h with hprice hqty
  cases h
  exact not_le.1 hqty

end Autr.Services.FundingArbExecutor
