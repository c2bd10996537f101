import Autr.Infra.TradeDb

namespace Autr.Positions.PositionService

open Autr.Async Autr.Infra TradeTracker TradeDb

inductive Result
  | opened (position : Position) (entryTrade : TradeRow) (exchangeOrderId : Option String) (message : String)
  | closed (position : Option Position) (exitTrade : TradeRow) (exchangeOrderId : Option String)
      (finalPnl finalPnlPercent : ℚ) (message : String)
  | failure (error message : String)
  deriving DecidableEq

def Result.success : Result → Bool
  | .failure _ _ => false
  | _ => true

/-- How the service is set up: in live trading it has a client and is not on paper. -/
structure Trading where
  paperTrading : Bool
  client : Bool
  deriving DecidableEq

def Trading.live (t : Trading) : Bool := !t.paperTrading && t.client

def entrySide (positionType : String) : String := if positionType = "long" then "Buy" else "Sell"

def exitSide (positionType : String) : String := if positionType = "long" then "Sell" else "Buy"

def entryTrade (p : NewPosition) (orderId : Option String) : NewTrade where
  symbol := p.symbol
  side := entrySide p.positionType
  quantity := p.quantity
  price := p.entryPrice
  signal := "position_open"
  positionType := p.positionType
  dollarAmount := p.dollarAmount
  status := "filled"
  orderId := orderId

/-- The rows of a position whose order has been accepted or is not needed. -/
def recordOpen (p : NewPosition) (orderId : Option String) : Desk Result := do
  let trade ← addTrade (entryTrade p orderId)
  let position ← createPosition { p with entryTradeId := some trade.id }
  return .opened position trade orderId ("Position opened: " ++ p.symbol ++ " " ++ p.positionType)

/-- An order of the live mode, and what follows once it has been accepted. -/
def afterOrder (order : Order) (message : String) (record : Option String → Desk Result) : Desk Result := do
  match ← await (.placeOrder order) with
  | .rejected error => return .failure (error.getD "order_failed") message
  | .accepted orderId => record orderId

def recordAtMarket (p : NewPosition) (orderId : Option String) : Desk Result := do
  let marketPrice ← await (.getCurrentPrice p.symbol)
  recordOpen { p with entryPrice := if 0 < marketPrice then marketPrice else p.entryPrice } orderId

def openPosition (t : Trading) (symbol positionType : String) (entryPrice quantity dollarAmount : ℚ) :
    Desk Result :=
  let p : NewPosition := ⟨symbol, positionType, entryPrice, quantity, dollarAmount, none⟩
  Prog.attempt
    (if t.live then
      if positionType = "short" then
        return .failure "short_not_supported" "Spot short is not supported for live execution."
      else
        afterOrder ⟨symbol, entrySide positionType, quantity⟩
          "Exchange order failed; no local position stored." (recordAtMarket p)
    else recordOpen p none)
    (fun e => return .failure e "Failed to open position")

def exitTrade (p : Position) (closePrice : ℚ) (orderId : Option String) : NewTrade where
  symbol := p.symbol
  side := exitSide p.positionType
  quantity := p.quantity
  price := closePrice
  signal := "position_close"
  positionType := p.positionType
  dollarAmount := p.quantity * closePrice
  status := "filled"
  orderId := orderId

def recordClose (id : String) (p : Position) (closePrice : ℚ) (orderId : Option String) : Desk Result := do
  let trade ← addTrade (exitTrade p closePrice orderId)
  let position ← TradeDb.closePosition id closePrice (some trade.id)
  return .closed position trade orderId ((position.map Position.unrealizedPnl).getD 0)
    ((position.map Position.unrealizedPnlPercent).getD 0) "Position closed"

def priceToClose (t : Trading) (p : Position) : Option ℚ → Desk ℚ
  | some closePrice => return closePrice
  | none => if t.client then await (.getCurrentPrice p.symbol) else return p.currentPrice

def closeFound (t : Trading) (id : String) (p : Position) (closePrice : Option ℚ) : Desk Result := do
  let closePrice ← priceToClose t p closePrice
  if t.live then
    afterOrder ⟨p.symbol, exitSide p.positionType, p.quantity⟩
      "Exchange close order failed; local position unchanged." (recordClose id p closePrice)
  else recordClose id p closePrice none

def closePosition (t : Trading) (id : String) (closePrice : Option ℚ) : Desk Result :=
  Prog.attempt
    (do
      match ← TradeDb.getPositionById id with
      | none => return .failure "Position not found" ("Position " ++ id ++ " not found")
      | some p =>
          if p.status ≠ .open then
            return .failure "Position already closed" ("Position " ++ id ++ " is already closed")
          else closeFound t id p closePrice)
    (fun e => return .failure e "Failed to close position")

def live : Trading := ⟨false, true⟩

end Autr.Positions.PositionService
