import Autr.Infra.Bybit
import Autr.Positions.PositionService
import Mathlib.Data.Rat.Floor

namespace Autr.Positions.AutoClose

open Autr.Async Autr.Infra TradeTracker TradeDb PositionService

/-- The calls of the route: those of the trading desk, and the listing of open rows. -/
inductive Op
  | desk (op : TradeDb.Op)
  | selectPositions (status : Option Status) (symbol : String) (limit : ℕ)
  deriving DecidableEq

abbrev Op.Res : Op → Type
  | .desk op => op.Res
  | .selectPositions _ _ _ => List Position

abbrev Route := Prog Op Op.Res String

def exec (op : Op) (c : Env) (w : World) : Except String (Op.Res op) × World :=
  match op with
  | .desk op => TradeDb.exec op c w
  | .selectPositions status symbol limit =>
      c.fault.apply w (TradeTracker.getPositions status symbol limit w.positions, w)

def handler : Handler Op Op.Res String World Env where
  exec := exec
  clock _ := 0

@[simp] theorem handler_exec : handler.exec = exec := rfl

def getPositions (status : Option Status) (symbol : String) (limit : ℕ) : Route (List Position) :=
  Prog.perform (Op.selectPositions status symbol limit)

def getCurrentPrice (symbol : String) : Route ℚ := Prog.perform (Op.desk (.getCurrentPrice symbol))

/-- The trading client, with the texts of its refusals. -/
structure Client where
  config : Bybit.Config
  describe : Bybit.OrderError → String

def Client.orderGuard (x : Client) (order : Order) (currentPrice : ℚ) : Option Bybit.OrderError :=
  if !x.config.authenticated then some .noApiKey
  else Bybit.orderGuard x.config (if order.side = "Buy" then .buy else .sell) order.qty currentPrice

/-- The client reads the price once more before it sends an order. -/
def Client.placeOrder (x : Client) (order : Order) : Route Reply := do
  let currentPrice ← getCurrentPrice order.symbol
  match x.orderGuard order currentPrice with
  | some error => return .rejected (some (x.describe error))
  | none => Prog.perform (Op.desk (.placeOrder order))

def Client.perform (x : Client) : (op : TradeDb.Op) → Route op.Res
  | .placeOrder order => x.placeOrder order
  | op => Prog.perform (Op.desk op)

def openLimit : ℕ := 1000

def daySeconds : ℚ := 86400

def calculateDaysOpen (now openTime : ℚ) : ℤ := ⌊(now - openTime) / daySeconds⌋

/-- A listed row with what the service derives from it. -/
structure OpenPosition where
  position : Position
  daysOpen : ℤ

def withDerivedFields (now : ℚ) (p : Position) : OpenPosition := ⟨p, calculateDaysOpen now p.openTime⟩

def getOpenPositions (now : ℚ) (symbol : String) : Route (List OpenPosition) := do
  let positions ← getPositions (some .open) symbol openLimit
  return positions.map (withDerivedFields now)

structure Criteria where
  maxLossPercent : Option ℚ
  minProfitPercent : Option ℚ
  maxDaysOpen : Option ℤ
  deriving DecidableEq

inductive CloseReason
  | stopLoss (pnlPct : ℚ)
  | takeProfit (pnlPct : ℚ)
  | maxDays (days : ℤ)
  deriving DecidableEq

def Criteria.closeReason (c : Criteria) (pnlPct : ℚ) (days : ℤ) : Option CloseReason :=
  if ∃ maxLoss ∈ c.maxLossPercent, pnlPct ≤ -|maxLoss| then some (.stopLoss pnlPct)
  else if ∃ minProfit ∈ c.minProfitPercent, minProfit ≤ pnlPct then some (.takeProfit pnlPct)
  else if ∃ maxDays ∈ c.maxDaysOpen, maxDays ≤ days then some (.maxDays days)
  else none

def autoCloseEach (x : Client) (t : Trading) (c : Criteria) : List OpenPosition → Route (List (Result × CloseReason))
  | [] => return []
  | p :: ps =>
      match c.closeReason p.position.unrealizedPnlPercent p.daysOpen with
      | none => autoCloseEach x t c ps
      | some closeReason => do
          let result ← (closePosition t p.position.id none).interp x.perform
          let rest ← autoCloseEach x t c ps
          return (result, closeReason) :: rest

def autoClosePositionsByCriteria (x : Client) (t : Trading) (now : ℚ) (symbol : String) (c : Criteria) :
    Route (List (Result × CloseReason)) := do
  let openPositions ← getOpenPositions now symbol
  autoCloseEach x t c openPositions

def updatePositionPrices (priceUpdates : List (String × ℚ)) : Desk (Except String ℕ) :=
  Prog.attempt
    (do
      let updated ← updateOpenPositionPrices priceUpdates
      return .ok updated)
    (fun e => return .error e)

/-- The prices of the symbols whose read does not raise. -/
def currentPrices : List String → Route (List (String × ℚ))
  | [] => return []
  | symbol :: symbols => do
      let price ← Prog.attempt
        (do
          let price ← getCurrentPrice symbol
          return some (symbol, price))
        (fun _ => return none)
      let prices ← currentPrices symbols
      return price.toList ++ prices

/-- The order in which a set of symbols is gone through. -/
structure SetOrder where
  toList : List String → List String
  perm : ∀ symbols, (toList symbols).Perm symbols.dedup

/-- The route, whose trading client is there. -/
def autoClosePositions (x : Client) (order : SetOrder) (paperTrading : Bool) (now : ℚ) (symbol : String)
    (c : Criteria) : Route (List (Result × CloseReason)) := do
  let openPositions ← getOpenPositions now symbol
  let symbols := order.toList (openPositions.map (fun p => p.position.symbol))
  let priceUpdates ← currentPrices symbols
  let _ ← (updatePositionPrices priceUpdates).interp x.perform
  autoClosePositionsByCriteria x ⟨paperTrading, true⟩ now symbol c

/-- A criterion that holds of the profit and the days. -/
def Criteria.Met (c : Criteria) (pnlPct : ℚ) (days : ℤ) : Prop :=
  (∃ maxLoss ∈ c.maxLossPercent, pnlPct ≤ -|maxLoss|) ∨ (∃ minProfit ∈ c.minProfitPercent, minProfit ≤ pnlPct) ∨
    ∃ maxDays ∈ c.maxDaysOpen, maxDays ≤ days

instance (c : Criteria) (pnlPct : ℚ) (days : ℤ) : Decidable (c.Met pnlPct days) :=
  inferInstanceAs (Decidable ((∃ maxLoss ∈ c.maxLossPercent, pnlPct ≤ -|maxLoss|) ∨
    (∃ minProfit ∈ c.minProfitPercent, minProfit ≤ pnlPct) ∨ ∃ maxDays ∈ c.maxDaysOpen, maxDays ≤ days))

theorem closeReason_eq_none (c : Criteria) (pnlPct : ℚ) (days : ℤ) :
    c.closeReason pnlPct days = none ↔ ¬ c.Met pnlPct days := by
  rw [Criteria.closeReason, Criteria.Met]
  split
  · next h => exact iff_of_false (by simp) (fun hn => hn (.inl h))
  · next hloss =>
      split
      · next h => exact iff_of_false (by simp) (fun hn => hn (.inr (.inl h)))
      · next hprofit =>
          split
          · next h => exact iff_of_false (by simp) (fun hn => hn (.inr (.inr h)))
          · next hdays => exact iff_of_true rfl (fun h => h.elim hloss (fun h => h.elim hprofit hdays))

end Autr.Positions.AutoClose
