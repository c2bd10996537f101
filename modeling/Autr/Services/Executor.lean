import Autr.Services.Effects

namespace Autr.Services

open Autr.Async Autr.Infra Bybit TradeTracker Redis

namespace ReconcileDomain

inductive Action
  | noop
  | openMissingLocal
  | closeOrphanLocal
  | adjustQty
  deriving DecidableEq

def tolerance : ℚ := 1 / 1000000000

def reconcile (localQty exchangeQty : ℚ) : Action :=
  if |localQty - exchangeQty| ≤ tolerance then .noop
  else if localQty = 0 ∧ 0 < exchangeQty then .openMissingLocal
  else if 0 < localQty ∧ exchangeQty = 0 then .closeOrphanLocal
  else .adjustQty

end ReconcileDomain

namespace Executor

def lockTtl : ℚ := 10

def processedTtl : ℚ := 3600

inductive Refusal
  | lockFailed
  | duplicateSignal
  | positionAlreadyOpen
  | noSafeQty
  | orderFailed (error : OrderError)
  deriving DecidableEq

inductive Outcome
  | success (qty price : ℚ) (orderId : String) (pnl : Option (ℚ × ℚ))
  | refused (reason : Refusal)
  deriving DecidableEq

inductive Reconciled
  | noop
  | diffIsDust
  | dustIgnored
  | closeOrphanLocal (localQty : ℚ)
  | openMissingLocal (exchangeQty : ℚ)
  | closeDust (exchangeQty : ℚ)
  | adjustQty (localQty exchangeQty : ℚ)
  | error (e : Exc)
  deriving DecidableEq

def isProcessed (sigId : String) : Svc Bool := do
  let value ← await (.get (processedKey sigId))
  return value.any (· ≠ "")

def markProcessed (sigId : String) (ttl : ℚ) : Svc Unit :=
  await (.set (processedKey sigId) "1" (some ttl))

def notify (notice : Notice) : Svc Unit := await (.notify notice)

def openPositionsOf (symbol : String) : Svc (List Position) :=
  await (.selectPositions (some .open) symbol defaultLimit)

def placeOrder (symbol : String) (side : Side) (qty : Option ℚ) : Svc OrderResult := do
  match qty with
  | some q => await (.submitOrder symbol side q)
  | none =>
      match ← await (.calculateSafeOrderSize symbol side) with
      | some q => await (.submitOrder symbol side q)
      | none => return .failure .noSafeSize

def filledTrade (symbol side : String) (qty price : ℚ) (signal orderId : String) : Trade where
  symbol := symbol
  side := side
  quantity := qty
  price := price
  signal := signal
  positionType := "spot"
  status := "filled"
  dollarAmount := qty * price
  fees := 0
  orderId := orderId

/-- A long position at a price, as both `execute_buy` and `reconcile` create it. -/
def longPosition (symbol : String) (price qty : ℚ) : NewPosition :=
  ⟨symbol, "long", price, qty, qty * price, none⟩

def closePosition (id : String) (closePrice : ℚ) : Svc (Option Position) := do
  match ← await (.selectPosition id) with
  | none => return none
  | some position =>
      if position.status ≠ .open then return none
      else
        await (.updateClosed id (position.closing closePrice none))
        await (.selectPosition id)

/-- The executor closes a row with the statements every caller of `close_position` runs. -/
theorem closePosition_eq (id : String) (closePrice : ℚ) : closePosition id closePrice =
    closeVia (fun id => await (.selectPosition id)) (fun id c => await (.updateClosed id c)) id closePrice none := by
  rw [closePosition, closeVia]
  refine congrArg _ (funext fun position => ?_)
  cases position <;> rfl

def closeAll (positions : List Position) (closePrice : ℚ) : Svc Unit :=
  Prog.forEach (fun p => do
    let _ ← closePosition p.id closePrice
    return ()) positions

/-- What follows an accepted buy: the trade, the position, the mark, the message. -/
def recordBuy (symbol strategy sigId : String) (closePrice filledQty : ℚ) (orderId : String) :
    Svc Outcome := do
  await (.insertTrade (filledTrade symbol "Buy" filledQty closePrice
    ("executor_buy:" ++ strategy ++ ":" ++ sigId) orderId))
  Prog.attempt (await (.insertPosition (longPosition symbol closePrice filledQty)))
    (fun _ => return ())
  markProcessed sigId processedTtl
  notify (.bought symbol strategy filledQty closePrice)
  return .success filledQty closePrice orderId none

def buySection (symbol strategy sigId : String) (closePrice : ℚ) : Svc Outcome := do
  if ← isProcessed sigId then return .refused .duplicateSignal
  else
    let openPositions ← openPositionsOf symbol
    if !openPositions.isEmpty then return .refused .positionAlreadyOpen
    else
      match ← await (.calculateSafeOrderSize symbol .buy) with
      | none => do
          notify (.noSafeQty symbol)
          return .refused .noSafeQty
      | some safeQty =>
          match ← placeOrder symbol .buy (some safeQty) with
          | .failure error => do
              notify (.buyFailed symbol strategy error)
              return .refused (.orderFailed error)
          | .success orderId filled =>
              recordBuy symbol strategy sigId closePrice (if filled = 0 then safeQty else filled) orderId

def withLock (symbol : String) (body : Svc Outcome) : Svc Outcome := do
  if ← await (.acquireLock (executorLock symbol) lockTtl) then
    body.ensure (await (.releaseLock (executorLock symbol)))
  else return .refused .lockFailed

def executeBuy (symbol strategy sigId : String) (closePrice : ℚ) : Svc Outcome :=
  withLock symbol (buySection symbol strategy sigId closePrice)

def invested (p : Position) : ℚ :=
  if p.dollarAmount = 0 then p.entryPrice * p.quantity else p.dollarAmount

def recordSell (symbol strategy sigId : String) (closePrice filledQty totalInvested : ℚ)
    (orderId : String) : Svc Outcome := do
  await (.insertTrade (filledTrade symbol "Sell" filledQty closePrice
    ("executor_sell:" ++ strategy ++ ":" ++ sigId) orderId))
  Prog.attempt
    (do
      let openPositions ← openPositionsOf symbol
      closeAll openPositions closePrice)
    (fun _ => return ())
  markProcessed sigId processedTtl
  let pnl := filledQty * closePrice - totalInvested
  let pnlPct := pnlPercent pnl totalInvested
  notify (.sold symbol strategy filledQty closePrice pnl pnlPct)
  return .success filledQty closePrice orderId (some (pnl, pnlPct))

def sellSection (symbol strategy sigId : String) (closePrice : ℚ) (qty : Option ℚ) : Svc Outcome := do
  if ← isProcessed sigId then return .refused .duplicateSignal
  else
    let openPositionsBefore ← openPositionsOf symbol
    let totalInvested := (openPositionsBefore.map invested).sum
    match ← placeOrder symbol .sell qty with
    | .failure error => do
        notify (.sellFailed symbol strategy error)
        return .refused (.orderFailed error)
    | .success orderId filled =>
        recordSell symbol strategy sigId closePrice (if filled = 0 then qty.getD 0 else filled)
          totalInvested orderId

/-- Without a quantity the client sizes the order from the whole balance. -/
def executeSell (symbol strategy sigId : String) (closePrice : ℚ) (qty : Option ℚ) : Svc Outcome :=
  withLock symbol (sellSection symbol strategy sigId closePrice qty)

/-- A balance that cannot be read counts as no balance. -/
def getExchangeQty (symbol : String) : Svc ℚ :=
  Prog.attempt
    (do
      let balance ← await .getBalance
      return balanceOf balance (baseCurrency symbol))
    (fun _ => return 0)

def currentPriceOf (symbol : String) : Svc ℚ := await (.getCurrentPrice symbol)

def localQty (positions : List Position) : ℚ := (positions.map Position.quantity).sum

/-- The branches of `reconcile` once everything has been read and differs by more than dust. -/
def applyDecision (minOrderSize : ℚ) (symbol : String) (exchangeQty : ℚ) (openPositions : List Position)
    (currentPrice : ℚ) : Svc Reconciled :=
  match ReconcileDomain.reconcile (localQty openPositions) exchangeQty with
  | .noop => return .noop
  | .closeOrphanLocal => do
      notify (.reconcileOrphan symbol)
      closeAll openPositions currentPrice
      return .closeOrphanLocal (localQty openPositions)
  | .openMissingLocal =>
      if exchangeQty * currentPrice < minOrderSize then return .dustIgnored
      else do
        notify (.reconcileMissing symbol)
        await (.insertPosition (longPosition symbol currentPrice exchangeQty))
        return .openMissingLocal exchangeQty
  | .adjustQty => do
      closeAll openPositions currentPrice
      if exchangeQty * currentPrice < minOrderSize then
        notify (.reconcileDust symbol exchangeQty)
        return .closeDust exchangeQty
      else
        notify (.reconcileMismatch symbol (localQty openPositions) exchangeQty)
        await (.insertPosition (longPosition symbol currentPrice exchangeQty))
        return .adjustQty (localQty openPositions) exchangeQty

def reconcile (minOrderSize : ℚ) (symbol : String) : Svc Reconciled :=
  Prog.attempt
    (do
      let exchangeQty ← getExchangeQty symbol
      let openPositionsLocal ← openPositionsOf symbol
      let currentPrice ← currentPriceOf symbol
      if |localQty openPositionsLocal - exchangeQty| * currentPrice < minOrderSize then return .diffIsDust
      else applyDecision minOrderSize symbol exchangeQty openPositionsLocal currentPrice)
    (fun e => return .error e)

def Rows : Op → Prop
  | .selectPosition _ | .updateClosed _ _ => True
  | _ => False

/-- What follows an accepted order: rows, trades, messages, and the mark of the signal. -/
def Recording (sigId : String) : Op → Prop
  | .insertTrade _ | .insertPosition _ | .selectPositions _ _ _ | .selectPosition _ | .updateClosed _ _
  | .notify _ => True
  | .set key _ _ => key = processedKey sigId
  | _ => False

/-- The calls made under the lock of a symbol: nothing of the arbitrage, no other lock, no
mark but that of the signal, no order in another symbol or on the other side. -/
def Permitted (symbol : String) (side : Side) (sigId : String) : Op → Prop
  | .acquireLock _ _ | .releaseLock _ | .placeLinearOrder _ _ _ _ | .setLeverage _ _ _ => False
  | .get key | .set key _ _ => key = processedKey sigId
  | .submitOrder s d _ => s = symbol ∧ d = side
  | _ => True

/-- The calls of `reconcile`: reads, rows and messages. -/
def Reconciling : Op → Prop
  | .getBalance | .getCurrentPrice _ | .selectPositions _ _ _ | .selectPosition _ | .updateClosed _ _
  | .insertPosition _ | .notify _ => True
  | _ => False

theorem reconciling_of_rows (op : Op) (h : Rows op) : Reconciling op := by
  cases op <;> first | exact h.elim | trivial

theorem orderless_of_reconciling (op : Op) (h : Reconciling op) : Orderless op := by
  cases op <;> first | exact h.elim | exact ⟨rfl, rfl⟩

theorem recording_of_rows (sigId : String) (op : Op) (h : Rows op) : Recording sigId op := by
  cases op <;> first | exact h.elim | trivial

theorem permitted_of_recording (symbol : String) (side : Side) {sigId : String} (op : Op)
    (h : Recording sigId op) : Permitted symbol side sigId op := by
  cases op <;> first | exact h.elim | exact h

theorem orderless_of_recording {sigId : String} (op : Op) (h : Recording sigId op) : Orderless op := by
  cases op <;> first | exact h.elim | exact ⟨rfl, rfl⟩

theorem notify_orderless {α : Type} (notice : Notice) (a : α) : (do notify notice; return a : Svc α).Uses Orderless :=
  Prog.uses_bind (Prog.uses_perform ⟨rfl, rfl⟩) (fun _ => trivial)

theorem closePosition_rows (id : String) (closePrice : ℚ) : (closePosition id closePrice).Uses Rows := by
  refine Prog.uses_bind (Prog.uses_perform trivial) (fun position => ?_)
  cases position with
  | none => trivial
  | some position =>
      dsimp only
      split
      · trivial
      · exact Prog.uses_bind (Prog.uses_perform trivial) (fun _ => Prog.uses_perform trivial)

theorem closeAll_rows (closePrice : ℚ) (positions : List Position) :
    (closeAll positions closePrice).Uses Rows := by
  refine Prog.uses_forEach (fun p => ?_) _
  exact Prog.uses_bind (closePosition_rows p.id closePrice) (fun _ => trivial)

theorem applyDecision_reconciling (minOrderSize : ℚ) (symbol : String) (exchangeQty : ℚ)
    (openPositions : List Position) (currentPrice : ℚ) :
    (applyDecision minOrderSize symbol exchangeQty openPositions currentPrice).Uses Reconciling := by
  have hclose : (closeAll openPositions currentPrice).Uses Reconciling :=
    (closeAll_rows currentPrice openPositions).mono reconciling_of_rows
  have hinsert : ∀ result : Reconciled, (do
      await (.insertPosition (longPosition symbol currentPrice exchangeQty))
      return result : Svc Reconciled).Uses Reconciling := fun _ =>
    Prog.uses_bind (Prog.uses_perform trivial) (fun _ => trivial)
  rw [applyDecision]
  cases ReconcileDomain.reconcile (localQty openPositions) exchangeQty with
  | noop => trivial
  | closeOrphanLocal =>
      refine Prog.uses_bind (Prog.uses_perform trivial) (fun _ => ?_)
      exact Prog.uses_bind hclose (fun _ => trivial)
  | openMissingLocal =>
      dsimp only
      split
      · trivial
      · exact Prog.uses_bind (Prog.uses_perform trivial) (fun _ => hinsert _)
  | adjustQty =>
      refine Prog.uses_bind hclose (fun _ => ?_)
      split
      · exact Prog.uses_bind (Prog.uses_perform trivial) (fun _ => trivial)
      · exact Prog.uses_bind (Prog.uses_perform trivial) (fun _ => hinsert _)

theorem reconcile_reconciling (minOrderSize : ℚ) (symbol : String) :
    (reconcile minOrderSize symbol).Uses Reconciling := by
  refine Prog.uses_attempt ?_ (fun _ => trivial)
  refine Prog.uses_bind ?_ (fun exchangeQty => ?_)
  · exact Prog.uses_attempt (Prog.uses_bind (Prog.uses_perform trivial) (fun _ => trivial)) (fun _ => trivial)
  refine Prog.uses_bind (Prog.uses_perform trivial) (fun openPositions => ?_)
  refine Prog.uses_bind (Prog.uses_perform trivial) (fun currentPrice => ?_)
  split
  · trivial
  · exact applyDecision_reconciling minOrderSize symbol exchangeQty openPositions currentPrice

theorem placeOrder_uses {P : Op → Prop} {symbol : String} {side : Side} (hsize : P (.calculateSafeOrderSize symbol side))
    (hsubmit : ∀ q, P (.submitOrder symbol side q)) (qty : Option ℚ) : (placeOrder symbol side qty).Uses P := by
  cases qty with
  | some q => exact Prog.uses_perform (hsubmit q)
  | none =>
      refine Prog.uses_bind (Prog.uses_perform hsize) (fun q => ?_)
      cases q with
      | none => trivial
      | some q => exact Prog.uses_perform (hsubmit q)

section Permitted

variable (symbol strategy sigId : String) (closePrice : ℚ)

theorem placeOrder_permitted (side : Side) (qty : Option ℚ) :
    (placeOrder symbol side qty).Uses (Permitted symbol side sigId) :=
  placeOrder_uses trivial (fun _ => ⟨rfl, rfl⟩) qty

theorem recordBuy_recording (filledQty : ℚ) (orderId : String) :
    (recordBuy symbol strategy sigId closePrice filledQty orderId).Uses (Recording sigId) :=
  Prog.uses_bind (Prog.uses_perform trivial) (fun _ =>
    Prog.uses_bind (Prog.uses_attempt (Prog.uses_perform trivial) (fun _ => trivial)) (fun _ =>
      Prog.uses_bind (Prog.uses_perform rfl) (fun _ =>
        Prog.uses_bind (Prog.uses_perform trivial) (fun _ => trivial))))

theorem recordSell_recording (filledQty totalInvested : ℚ) (orderId : String) :
    (recordSell symbol strategy sigId closePrice filledQty totalInvested orderId).Uses (Recording sigId) :=
  Prog.uses_bind (Prog.uses_perform trivial) (fun _ =>
    Prog.uses_bind (Prog.uses_attempt (Prog.uses_bind (Prog.uses_perform trivial)
      (fun openPositions => (closeAll_rows closePrice openPositions).mono (recording_of_rows sigId)))
      (fun _ => trivial)) (fun _ => Prog.uses_bind (Prog.uses_perform rfl) (fun _ =>
        Prog.uses_bind (Prog.uses_perform trivial) (fun _ => trivial))))

theorem buySection_permitted :
    (buySection symbol strategy sigId closePrice).Uses (Permitted symbol .buy sigId) := by
  refine Prog.uses_bind (Prog.uses_bind (Prog.uses_perform rfl) (fun _ => trivial)) (fun processed => ?_)
  split
  · trivial
  refine Prog.uses_bind (Prog.uses_perform trivial) (fun openPositions => ?_)
  split
  · trivial
  refine Prog.uses_bind (Prog.uses_perform trivial) (fun safeQty => ?_)
  split
  · exact Prog.uses_bind (Prog.uses_perform trivial) (fun _ => trivial)
  refine Prog.uses_bind (placeOrder_permitted symbol sigId .buy _) (fun result => ?_)
  split
  · exact Prog.uses_bind (Prog.uses_perform trivial) (fun _ => trivial)
  · exact (recordBuy_recording symbol strategy sigId closePrice _ _).mono (permitted_of_recording symbol .buy)

theorem sellSection_permitted (qty : Option ℚ) :
    (sellSection symbol strategy sigId closePrice qty).Uses (Permitted symbol .sell sigId) := by
  refine Prog.uses_bind (Prog.uses_bind (Prog.uses_perform rfl) (fun _ => trivial)) (fun processed => ?_)
  split
  · trivial
  refine Prog.uses_bind (Prog.uses_perform trivial) (fun openPositions => ?_)
  refine Prog.uses_bind (placeOrder_permitted symbol sigId .sell qty) (fun result => ?_)
  split
  · exact Prog.uses_bind (Prog.uses_perform trivial) (fun _ => trivial)
  · exact (recordSell_recording symbol strategy sigId closePrice _ _ _).mono (permitted_of_recording symbol .sell)

end Permitted

end Executor

inductive Call
  | buy (symbol strategy sigId : String) (closePrice : ℚ)
  | sell (symbol strategy sigId : String) (closePrice : ℚ) (qty : Option ℚ)

def Call.symbol : Call → String
  | .buy symbol _ _ _ => symbol
  | .sell symbol _ _ _ _ => symbol

def Call.sigId : Call → String
  | .buy _ _ sigId _ => sigId
  | .sell _ _ sigId _ _ => sigId

def Call.body : Call → Svc Executor.Outcome
  | .buy symbol strategy sigId closePrice => Executor.buySection symbol strategy sigId closePrice
  | .sell symbol strategy sigId closePrice qty => Executor.sellSection symbol strategy sigId closePrice qty

def Call.prog : Call → Svc Executor.Outcome
  | .buy symbol strategy sigId closePrice => Executor.executeBuy symbol strategy sigId closePrice
  | .sell symbol strategy sigId closePrice qty => Executor.executeSell symbol strategy sigId closePrice qty

def Call.side : Call → Side
  | .buy _ _ _ _ => .buy
  | .sell _ _ _ _ _ => .sell

theorem Call.body_permitted (call : Call) :
    call.body.Uses (Executor.Permitted call.symbol call.side call.sigId) := by
  cases call with
  | buy symbol strategy sigId closePrice =>
      exact Executor.buySection_permitted symbol strategy sigId closePrice
  | sell symbol strategy sigId closePrice qty =>
      exact Executor.sellSection_permitted symbol strategy sigId closePrice qty

theorem Call.prog_eq (call : Call) : call.prog = Executor.withLock call.symbol call.body := by
  cases call <;> rfl

end Autr.Services
