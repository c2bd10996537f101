import Autr.Async.Pool
import Autr.Infra.Bybit
import Autr.Infra.Redis
import Autr.Infra.TradeTracker
import Autr.Strategies.FundingArb

namespace Autr.Services

open Autr.Async Autr.Infra Bybit TradeTracker

inductive Notice
  | noSafeQty (symbol : String)
  | buyFailed (symbol strategy : String) (error : OrderError)
  | bought (symbol strategy : String) (qty price : ℚ)
  | sellFailed (symbol strategy : String) (error : OrderError)
  | sold (symbol strategy : String) (qty price pnl pnlPct : ℚ)
  | reconcileOrphan (symbol : String)
  | reconcileMissing (symbol : String)
  | reconcileDust (symbol : String) (exchangeQty : ℚ)
  | reconcileMismatch (symbol : String) (localQty exchangeQty : ℚ)
  | arbShortFailed (symbol : String) (error : OrderError)
  | arbBuyFailed (symbol : String) (error : OrderError) (rolledBack : Bool)
  | arbOpened (symbol : String) (spotQty spotPrice perpQty perpPrice : ℚ)
  | arbCoverFailed (symbol : String) (error : OrderError)
  | arbSellFailed (symbol : String) (error : OrderError)
  | arbClosed (symbol : String) (reason : Strategies.FundingArb.Reason) (spotQty perpQty : ℚ)
  deriving DecidableEq

structure LinearPosition where
  size : ℚ
  entryPrice : ℚ
  unrealizedPnl : ℚ

structure Wallet where
  totalEquity : ℚ
  totalAvailableBalance : ℚ

structure Ticker where
  fundingRate : ℚ
  nextFundingTime : ℤ
  markPrice : ℚ

/-- The calls a service awaits: one method of the Redis adapter, one statement of the
database, one method of the exchange client, or a notification. -/
inductive Op
  | acquireLock (key : String) (ttl : ℚ)
  | releaseLock (key : String)
  | get (key : String)
  | set (key value : String) (ex : Option ℚ)
  | insertTrade (trade : Trade)
  | insertPosition (position : NewPosition)
  | selectPositions (status : Option Status) (symbol : String) (limit : ℕ)
  | selectPosition (id : String)
  | updateClosed (id : String) (closing : Closing)
  | calculateSafeOrderSize (symbol : String) (side : Side)
  | submitOrder (symbol : String) (side : Side) (qty : ℚ)
  | getBalance
  | getCurrentPrice (symbol : String)
  | placeLinearOrder (symbol : String) (side : Side) (qty : ℚ) (reduceOnly : Bool)
  | getLinearPositions (symbol : String)
  | getWalletBalance
  | getLinearTicker (symbol : String)
  | setLeverage (symbol : String) (buyLeverage sellLeverage : String)
  | notify (notice : Notice)
  deriving DecidableEq

/-- A failed read of positions, wallet or ticker answers with an empty dictionary. -/
abbrev Op.Res : Op → Type
  | .acquireLock _ _ => Bool
  | .releaseLock _ => Unit
  | .get _ => Option String
  | .set _ _ _ => Unit
  | .insertTrade _ => Unit
  | .insertPosition _ => Unit
  | .selectPositions _ _ _ => List Position
  | .selectPosition _ => Option Position
  | .updateClosed _ _ => Unit
  | .calculateSafeOrderSize _ _ => Option ℚ
  | .submitOrder _ _ _ => OrderResult
  | .getBalance => Balances
  | .getCurrentPrice _ => ℚ
  | .placeLinearOrder _ _ _ _ => OrderResult
  | .getLinearPositions _ => Option LinearPosition
  | .getWalletBalance => Option Wallet
  | .getLinearTicker _ => Option Ticker
  | .setLeverage _ _ _ => Bool
  | .notify _ => Unit

inductive Exc
  | connection
  | integrity
  deriving DecidableEq

abbrev Svc := Prog Op Op.Res Exc

abbrev await (op : Op) : Svc op.Res := Prog.perform op

structure Setting where
  backend : Redis.Backend
  bybit : Config

def defaults : Setting := ⟨.inMemory, ⟨true, 30, 5, 80⟩⟩

/-- The shared stores, and the account at the exchange: the coins of its spot wallet and
the size of its perpetual short in each symbol. -/
structure World where
  now : ℚ
  redis : Redis.Store
  trades : List Trade
  positions : Positions
  wallet : String → ℚ
  short : String → ℚ

/-- A call that fails may have failed before it took effect or after. -/
inductive Fault
  | none
  | lost
  | late
  deriving DecidableEq

inductive Reply
  | rejected (error : OrderError)
  | accepted (orderId : String) (executed : ℚ) (reported : Bool)
  deriving DecidableEq

/-- What the surroundings decide about one call; each call looks at its own part. A price
of zero is a failed read, and `answered` tells whether any other read succeeds. -/
structure Env where
  elapsed : ℚ
  elapsed_nonneg : 0 ≤ elapsed
  fault : Fault
  uuid : String
  utc : ℚ
  price : ℚ
  answered : Bool
  available : String → ℚ
  quote : ℚ
  reply : Reply
  entryPrice : ℚ
  unrealizedPnl : ℚ
  account : Wallet
  ticker : Ticker

/-- Nothing out of the ordinary: no delay, no fault, every read answered with nothing. -/
def Env.plain : Env where
  elapsed := 0
  elapsed_nonneg := le_rfl
  fault := .none
  uuid := ""
  utc := 0
  price := 0
  answered := true
  available _ := 0
  quote := 0
  reply := .rejected .noApiKey
  entryPrice := 0
  unrealizedPnl := 0
  account := ⟨0, 0⟩
  ticker := ⟨0, 0, 0⟩

def Env.trading : Env where
  elapsed := 0
  elapsed_nonneg := le_rfl
  fault := .none
  uuid := "position-1"
  utc := 0
  price := 30000
  answered := true
  available _ := 100
  quote := 100
  reply := .accepted "order-1" (1 / 1250) true
  entryPrice := 30000
  unrealizedPnl := 0
  account := ⟨100, 100⟩
  ticker := ⟨0, 0, 30000⟩

def World.empty : World where
  now := 0
  redis _ := none
  trades := []
  positions := Store.Table.empty
  wallet _ := 0
  short _ := 0

def quoteCoin : String := "USDT"

/-- The answer of `get_balance`. The quote coin moves with every price and is left to the
surroundings; so is how much of a coin may be withdrawn. -/
def balances (w : World) (c : Env) : Balances := fun coin =>
  let walletBalance := if coin = quoteCoin then c.quote else w.wallet coin
  if 0 < walletBalance then some ⟨walletBalance, c.available coin⟩ else none

def keyedAnswer (S : Setting) (c : Env) : Bool := S.bybit.authenticated && c.answered

def readBalance (S : Setting) (w : World) (c : Env) : Balances :=
  if keyedAnswer S c then balances w c else noBalances

/-- The filled quantity the client reports: the requested one when it cannot tell. -/
def filledQty (qty executed : ℚ) (reported : Bool) : ℚ :=
  if reported ∧ 0 < executed then executed else qty

def Reply.result (qty : ℚ) : Reply → OrderResult
  | .rejected error => .failure error
  | .accepted orderId executed reported => .success orderId (filledQty qty executed reported)

def Reply.executed : Reply → ℚ
  | .rejected _ => 0
  | .accepted _ executed _ => executed

/-- The reply an order gets; without a key or past the guard it is never sent. -/
def spotReply (S : Setting) (side : Side) (qty : ℚ) (c : Env) : Reply :=
  if !S.bybit.authenticated then .rejected .noApiKey
  else match orderGuard S.bybit side qty c.price with
    | some error => .rejected error
    | none => c.reply

def linearReply (S : Setting) (c : Env) : Reply :=
  if !S.bybit.authenticated then .rejected .noApiKey else c.reply

def spotChange : Side → ℚ → ℚ
  | .buy, executed => executed
  | .sell, executed => -executed

def fillSpot (symbol : String) (side : Side) (executed : ℚ) (w : World) : World :=
  let coin := baseCurrency symbol
  { w with wallet := Function.update w.wallet coin (w.wallet coin + spotChange side executed) }

/-- A reduce-only buy fills no more than the short that is there. -/
def shortChange (side : Side) (reduceOnly : Bool) (executed short : ℚ) : ℚ :=
  match side with
  | .sell => executed
  | .buy => if reduceOnly then -min executed (max short 0) else -executed

def fillLinear (symbol : String) (side : Side) (reduceOnly : Bool) (executed : ℚ) (w : World) : World :=
  let short := w.short symbol
  { w with short := Function.update w.short symbol (short + shortChange side reduceOnly executed short) }

def Fault.apply {α : Type} (f : Fault) (w : World) (r : α × World) : Except Exc α × World :=
  match f with
  | .none => (.ok r.1, r.2)
  | .lost => (.error .connection, w)
  | .late => (.error .connection, r.2)

/-- The stores raise what their connection raises; the client turns every failure into an
answer, except that reading the balance is also allowed to raise. -/
def exec (S : Setting) (op : Op) (c : Env) (w : World) : Except Exc (Op.Res op) × World :=
  let w := { w with now := w.now + c.elapsed }
  match op with
  | .acquireLock key ttl =>
      let r := Redis.acquireLock S.backend w.now key ttl w.redis
      c.fault.apply w (r.1, { w with redis := r.2 })
  | .releaseLock key => c.fault.apply w ((), { w with redis := Redis.releaseLock key w.redis })
  | .get key =>
      let r := Redis.get S.backend w.now key w.redis
      c.fault.apply w (r.1, { w with redis := r.2 })
  | .set key value ex => c.fault.apply w ((), { w with redis := Redis.set w.now key value ex w.redis })
  | .insertTrade trade => c.fault.apply w ((), { w with trades := w.trades ++ [trade] })
  | .insertPosition position =>
      match createPosition c.uuid c.utc position w.positions with
      | some positions => c.fault.apply w ((), { w with positions })
      | none => (.error .integrity, w)
  | .selectPositions status symbol limit =>
      c.fault.apply w (getPositions status symbol limit w.positions, w)
  | .selectPosition id => c.fault.apply w (getPositionById id w.positions, w)
  | .updateClosed id closing =>
      c.fault.apply w ((), { w with positions := updateClosed id closing c.utc w.positions })
  | .calculateSafeOrderSize symbol side =>
      (.ok (safeOrderSize S.bybit symbol side c.price (readBalance S w c)), w)
  | .submitOrder symbol side qty =>
      let reply := spotReply S side qty c
      (.ok (reply.result qty), fillSpot symbol side reply.executed w)
  | .getBalance => c.fault.apply w (readBalance S w c, w)
  | .getCurrentPrice _ => (.ok c.price, w)
  | .placeLinearOrder symbol side qty reduceOnly =>
      let reply := linearReply S c
      (.ok (reply.result qty), fillLinear symbol side reduceOnly reply.executed w)
  | .getLinearPositions symbol =>
      (.ok (if keyedAnswer S c then some ⟨|w.short symbol|, c.entryPrice, c.unrealizedPnl⟩ else none), w)
  | .getWalletBalance => (.ok (if keyedAnswer S c then some c.account else none), w)
  | .getLinearTicker _ => (.ok (if c.answered then some c.ticker else none), w)
  | .setLeverage _ _ _ => (.ok (keyedAnswer S c), w)
  | .notify _ => c.fault.apply w ((), w)

def Op.key : Op → Option String
  | .acquireLock key _ | .releaseLock key | .get key | .set key _ _ => some key
  | _ => none

theorem Fault.apply_world (P : World → Prop) {α : Type} {f : Fault} {w : World} {r : α × World}
    (hw : P w) (hr : P r.2) : P (f.apply w r).2 := by
  cases f <;> assumption

variable {S : Setting} {c : Env} {w : World}

theorem exec_now (op : Op) : (exec S op c w).2.now = w.now + c.elapsed := by
  cases op with
  | insertPosition p =>
      simp only [exec]
      split
      · exact Fault.apply_world (·.now = w.now + c.elapsed) rfl rfl
      · rfl
  | calculateSafeOrderSize | submitOrder | getCurrentPrice | placeLinearOrder | getLinearPositions
  | getWalletBalance | getLinearTicker | setLeverage => rfl
  | _ => exact Fault.apply_world (·.now = w.now + c.elapsed) rfl rfl

theorem exec_redis_of_ne {op : Op} {key : String} (h : op.key ≠ some key) :
    (exec S op c w).2.redis key = w.redis key := by
  have hne : ∀ k, some k ≠ some key → key ≠ k := fun k hk he => hk (by rw [he])
  cases op with
  | acquireLock k ttl =>
      exact Fault.apply_world (·.redis key = w.redis key) rfl (Redis.acquireLock_of_ne ttl (hne k h))
  | releaseLock k =>
      exact Fault.apply_world (·.redis key = w.redis key) rfl (Function.update_of_ne (hne k h) _ _)
  | get k => exact Fault.apply_world (·.redis key = w.redis key) rfl (Redis.get_snd_of_ne (hne k h))
  | set k value ex => exact Fault.apply_world (·.redis key = w.redis key) rfl (Redis.set_of_ne (hne k h))
  | insertPosition p =>
      simp only [exec]
      split
      · exact Fault.apply_world (·.redis key = w.redis key) rfl rfl
      · rfl
  | calculateSafeOrderSize | submitOrder | getCurrentPrice | placeLinearOrder | getLinearPositions
  | getWalletBalance | getLinearTicker | setLeverage => rfl
  | _ => exact Fault.apply_world (·.redis key = w.redis key) rfl rfl

def Op.isLinearOrder : Op → Bool
  | .placeLinearOrder _ _ _ _ => true
  | _ => false

def Op.isSpotOrder : Op → Bool
  | .submitOrder _ _ _ => true
  | _ => false

theorem exec_short_of_ne {op : Op} (h : op.isLinearOrder = false) : (exec S op c w).2.short = w.short := by
  cases op with
  | placeLinearOrder => cases h
  | insertPosition p =>
      simp only [exec]
      split
      · exact Fault.apply_world (·.short = w.short) rfl rfl
      · rfl
  | calculateSafeOrderSize | submitOrder | getCurrentPrice | getLinearPositions | getWalletBalance
  | getLinearTicker | setLeverage => rfl
  | _ => exact Fault.apply_world (·.short = w.short) rfl rfl

theorem exec_placeLinearOrder_short (symbol : String) (side : Side) (qty : ℚ) (reduceOnly : Bool) :
    (exec S (.placeLinearOrder symbol side qty reduceOnly) c w).2.short symbol =
      w.short symbol + shortChange side reduceOnly (linearReply S c).executed (w.short symbol) :=
  Function.update_self symbol _ w.short

theorem exec_wallet_of_ne {op : Op} (h : op.isSpotOrder = false) : (exec S op c w).2.wallet = w.wallet := by
  cases op with
  | submitOrder => cases h
  | insertPosition p =>
      simp only [exec]
      split
      · exact Fault.apply_world (·.wallet = w.wallet) rfl rfl
      · rfl
  | calculateSafeOrderSize | placeLinearOrder | getCurrentPrice | getLinearPositions | getWalletBalance
  | getLinearTicker | setLeverage => rfl
  | _ => exact Fault.apply_world (·.wallet = w.wallet) rfl rfl

theorem exec_submitOrder_wallet (symbol : String) (side : Side) (qty : ℚ) :
    (exec S (.submitOrder symbol side qty) c w).2.wallet (baseCurrency symbol) =
      w.wallet (baseCurrency symbol) + spotChange side (spotReply S side qty c).executed :=
  Function.update_self (baseCurrency symbol) _ w.wallet

def Orderless (op : Op) : Prop := op.isSpotOrder = false ∧ op.isLinearOrder = false

def World.account (w : World) : (String → ℚ) × (String → ℚ) := (w.wallet, w.short)

theorem exec_account {op : Op} (h : Orderless op) : (exec S op c w).2.account = w.account :=
  Prod.ext (exec_wallet_of_ne h.1) (exec_short_of_ne h.2)

def later (c : Env) (w : World) : World := { w with now := w.now + c.elapsed }

@[simp] theorem later_positions (c : Env) (w : World) : (later c w).positions = w.positions := rfl

@[simp] theorem later_short (c : Env) (w : World) : (later c w).short = w.short := rfl

def Reply.fills (qty : ℚ) : Reply → Bool
  | .rejected _ => true
  | .accepted _ executed _ => executed = qty

def Reply.isAccepted : Reply → Bool
  | .rejected _ => false
  | .accepted _ _ _ => true

def Op.orderQty : Op → Option ℚ
  | .submitOrder _ _ qty | .placeLinearOrder _ _ qty _ => some qty
  | _ => none

def fillsOrder (c : Env) (op : Op) : Bool := op.orderQty.all (fun qty => c.reply.fills qty)

theorem Reply.executed_of_fills {r : Reply} {qty : ℚ} (h : r.fills qty = true) :
    r.executed = if r.isAccepted then qty else 0 := by
  cases r with
  | rejected error => rfl
  | accepted orderId executed reported => exact of_decide_eq_true h

/-- The client reports nothing filled only for an order of nothing. -/
theorem Reply.result_success {r : Reply} {qty filled : ℚ} {orderId : String}
    (h : r.result qty = .success orderId filled) : r.isAccepted = true ∧ (filled = 0 → qty = 0) := by
  cases r with
  | rejected error => cases h
  | accepted id executed reported =>
      simp only [Reply.result, OrderResult.success.injEq] at h
      refine ⟨rfl, fun hz => ?_⟩
      have hfilled : filledQty qty executed reported = 0 := h.2.trans hz
      unfold filledQty at hfilled
      split at hfilled
      · next hpos => exact absurd hfilled hpos.2.ne'
      · exact hfilled

theorem linearReply_fills {qty : ℚ} (h : c.reply.fills qty = true) : (linearReply S c).fills qty = true := by
  rw [linearReply]
  split
  · rfl
  · exact h

theorem spotReply_fills {side : Side} {qty : ℚ} (h : c.reply.fills qty = true) :
    (spotReply S side qty c).fills qty = true := by
  rw [spotReply]
  split
  · rfl
  · split
    · rfl
    · exact h

def handler (S : Setting) : Handler Op Op.Res Exc World Env where
  exec := exec S
  clock := World.now

@[simp] theorem handler_exec : (handler S).exec = exec S := rfl

end Autr.Services
