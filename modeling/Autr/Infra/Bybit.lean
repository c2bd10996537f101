import Autr.Async.Pool
import Autr.Decimal
import Autr.Text

namespace Autr.Infra.Bybit

open Autr.Async Decimal

inductive Side
  | buy
  | sell
  deriving DecidableEq

structure Config where
  authenticated : Bool
  maxTradeAmount : ℚ
  minOrderSize : ℚ
  maxPositionPercentage : ℚ

structure Coin where
  balance : ℚ
  available : ℚ
  deriving DecidableEq

/-- The answer of `get_balance`: a coin without a positive wallet balance has no entry. -/
abbrev Balances := String → Option Coin

def noBalances : Balances := fun _ => none

def availableOf (b : Balances) (coin : String) : ℚ := ((b coin).map Coin.available).getD 0

def balanceOf (b : Balances) (coin : String) : ℚ := ((b coin).map Coin.balance).getD 0

def baseCurrency (symbol : String) : String := Text.replace "USDT" "" symbol

def symbolPrecision : String → ℕ
  | "BTCUSDT" => 6
  | "XRPUSDT" => 2
  | "SOLUSDT" => 4
  | _ => 6

/-- The size that `calculate_safe_order_size` returns, in exact arithmetic. -/
def safeOrderSize (cfg : Config) (symbol : String) (side : Side) (price : ℚ) (b : Balances) : Option ℚ :=
  if price ≤ 0 then none
  else
    let availableAmount := min (availableOf b "USDT") cfg.maxTradeAmount
    match side with
    | .buy =>
        if availableAmount < cfg.minOrderSize then none
        else
          let maxBuyAmount := availableAmount * (cfg.maxPositionPercentage / 100)
          let cryptoQty := maxBuyAmount / price
          if maxBuyAmount < cfg.minOrderSize then none
          else some (floorTo (symbolPrecision symbol) cryptoQty)
    | .sell =>
        let cryptoBalance := availableOf b (baseCurrency symbol)
        if cryptoBalance ≤ 0 then none
        else some (floorTo (symbolPrecision symbol) cryptoBalance)

inductive Category
  | spot
  | linear
  deriving DecidableEq

structure OrderRequest where
  category : Category
  symbol : String
  side : Side
  orderType : String
  qty : ℚ
  reduceOnly : Bool
  deriving DecidableEq

structure Response (α : Type) where
  retCode : ℤ
  retMsg : String
  result : α

structure CoinRecord where
  coin : String
  walletBalance : ℚ
  availableToWithdraw : Option ℚ
  equity : ℚ

structure OrderRecord where
  cumExecQty : ℚ

inductive Http
  | getTickers (category : Category) (symbol : String)
  | getWalletBalance
  | placeOrder (request : OrderRequest)
  | getOrderHistory (category : Category) (symbol orderId : String)
  | sleep (seconds : ℚ)

abbrev Http.Res : Http → Type
  | .getTickers _ _ => Response (List ℚ)
  | .getWalletBalance => Response (List (List CoinRecord))
  | .placeOrder _ => Response String
  | .getOrderHistory _ _ _ => Response (List OrderRecord)
  | .sleep _ => Unit

inductive Exc
  | timeoutError
  | osError
  | connectionError
  | requestsTimeout
  | requestsConnectionError
  | other (text : String)
  deriving DecidableEq

def isRetryableException : Exc → Bool
  | .other _ => false
  | _ => true

abbrev Client := Prog Http Http.Res Exc

/-- The pause after the attempt with the given number, counted from one. -/
def waitExponential (attempt : ℕ) : ℚ := max 1 (min (2 ^ (attempt - 1)) 16)

def maxAttempts : ℕ := 5

/-- The attempts that are left after the first one of the call, which has the number
`maxAttempts - left`. -/
def callFrom (op : Http) : ℕ → Client (Http.Res op)
  | 0 => Prog.perform op
  | left + 1 => (Prog.perform op).attempt (fun e =>
      if isRetryableException e then do
        let _ ← Prog.perform (.sleep (waitExponential (maxAttempts - (left + 1))))
        callFrom op left
      else .raise e)

def call (op : Http) : Client (Http.Res op) := callFrom op (maxAttempts - 1)

def getCurrentPrice (symbol : String) : Client ℚ :=
  Prog.attempt
    (do
      let response ← call (.getTickers .spot symbol)
      if response.retCode = 0 then
        match response.result with
        | price :: _ => return price
        | [] => .raise (.other "list index out of range")
      else return 0)
    (fun _ => return 0)

/-- One coin of the wallet; an empty `availableToWithdraw` falls back to the equity. -/
def addCoin (b : Balances) (c : CoinRecord) : Balances :=
  if 0 < c.walletBalance then
    Function.update b c.coin (some ⟨c.walletBalance, c.availableToWithdraw.getD c.equity⟩)
  else b

def getBalance (cfg : Config) : Client Balances :=
  if cfg.authenticated then
    Prog.attempt
      (do
        let response ← call .getWalletBalance
        if response.retCode = 0 then
          match response.result with
          | coins :: _ => return coins.foldl addCoin noBalances
          | [] => return noBalances
        else return noBalances)
      (fun _ => return noBalances)
  else return noBalances

def calculateSafeOrderSize (cfg : Config) (symbol : String) (side : Side) : Client (Option ℚ) := do
  let currentPrice ← getCurrentPrice symbol
  if currentPrice ≤ 0 then return none
  else
    let balance ← getBalance cfg
    return safeOrderSize cfg symbol side currentPrice balance

inductive OrderError
  | noSafeSize
  | noApiKey
  | aboveMax (orderValue maxTradeAmount : ℚ)
  | belowMin (orderValue minOrderSize : ℚ)
  | rejected (retMsg : String)
  | exception (e : Exc)
  deriving DecidableEq

inductive OrderResult
  | success (orderId : String) (filledQty : ℚ)
  | failure (error : OrderError)
  deriving DecidableEq

def OrderResult.isSuccess : OrderResult → Bool
  | .success _ _ => true
  | .failure _ => false

def getFilledQty (symbol orderId : String) (requestedQty : ℚ) : Client ℚ :=
  Prog.attempt
    (do
      let _ ← Prog.perform (.sleep (1 / 2))
      let response ← call (.getOrderHistory .spot symbol orderId)
      if response.retCode = 0 then
        match response.result with
        | order :: _ => return if 0 < order.cumExecQty then order.cumExecQty else requestedQty
        | [] => return requestedQty
      else return requestedQty)
    (fun _ => return requestedQty)

def orderGuard (cfg : Config) (side : Side) (qty price : ℚ) : Option OrderError :=
  let orderValue := qty * price
  if side = .buy ∧ cfg.maxTradeAmount < orderValue then some (.aboveMax orderValue cfg.maxTradeAmount)
  else if orderValue < cfg.minOrderSize then some (.belowMin orderValue cfg.minOrderSize)
  else none

def submitOrder (cfg : Config) (symbol : String) (side : Side) (orderType : String) (qty : ℚ) :
    Client OrderResult :=
  if !cfg.authenticated then do
    let _ ← getCurrentPrice symbol
    return .failure .noApiKey
  else
    Prog.attempt
      (do
        let currentPrice ← getCurrentPrice symbol
        match orderGuard cfg side qty currentPrice with
        | some error => return .failure error
        | none =>
            let response ← call (.placeOrder ⟨.spot, symbol, side, orderType, qty, false⟩)
            if response.retCode = 0 then
              let filledQty ← getFilledQty symbol response.result qty
              return .success response.result filledQty
            else return .failure (.rejected response.retMsg))
      (fun e => return .failure (.exception e))

def placeOrder (cfg : Config) (symbol : String) (side : Side) (orderType : String) (qty : Option ℚ) :
    Client OrderResult := do
  match qty with
  | some q => submitOrder cfg symbol side orderType q
  | none =>
      match ← calculateSafeOrderSize cfg symbol side with
      | some q => submitOrder cfg symbol side orderType q
      | none => return .failure .noSafeSize

end Autr.Infra.Bybit
