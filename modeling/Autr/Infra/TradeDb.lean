import Autr.Async.Pool
import Autr.Infra.TradeTracker

namespace Autr.Infra.TradeDb

open Autr.Async TradeTracker

/-- The arguments of `add_trade`. -/
structure NewTrade where
  symbol : String
  side : String
  quantity : ℚ
  price : ℚ
  signal : String
  positionType : String
  dollarAmount : ℚ
  status : String
  orderId : Option String
  deriving DecidableEq

structure TradeRow where
  id : ℕ
  trade : NewTrade
  fees : ℚ
  deriving DecidableEq

structure Order where
  symbol : String
  side : String
  qty : ℚ
  deriving DecidableEq

inductive Reply
  | accepted (orderId : Option String)
  | rejected (error : Option String)
  deriving DecidableEq

def Reply.isAccepted : Reply → Bool
  | .accepted _ => true
  | .rejected _ => false

/-- One statement of the database or one method of the trading client. -/
inductive Op
  | insertTrade (trade : NewTrade)
  | insertPosition (position : NewPosition)
  | selectPosition (id : String)
  | selectOpen (symbol : String)
  | updatePrice (id : String) (pricing : Pricing)
  | updateClosed (id : String) (closing : Closing)
  | getCurrentPrice (symbol : String)
  | placeOrder (order : Order)
  deriving DecidableEq

abbrev Op.Res : Op → Type
  | .insertTrade _ => TradeRow
  | .insertPosition _ => Position
  | .selectPosition _ => Option Position
  | .selectOpen _ => List Position
  | .updatePrice _ _ => Unit
  | .updateClosed _ _ => Unit
  | .getCurrentPrice _ => ℚ
  | .placeOrder _ => Reply

/-- An exception is known by its text. -/
abbrev Desk := Prog Op Op.Res String

abbrev await (op : Op) : Desk op.Res := Prog.perform op

/-- The tables, the last id of a trade, and the orders the exchange has accepted. -/
structure World where
  trades : List TradeRow
  lastTradeId : ℕ
  positions : Positions
  orders : List Order

inductive Fault
  | none
  | lost (text : String)
  | late (text : String)
  deriving DecidableEq

structure Env where
  fault : Fault
  uuid : String
  utc : ℚ
  price : ℚ
  reply : Reply

def Fault.apply {α : Type} (f : Fault) (w : World) (r : α × World) : Except String α × World :=
  match f with
  | .none => (.ok r.1, r.2)
  | .lost text => (.error text, w)
  | .late text => (.error text, r.2)

def integrityError : String := "UNIQUE constraint failed: positions.id"

/-- The client reports success exactly when the order was accepted, so that an order
whose call raises was not. -/
def exec (op : Op) (c : Env) (w : World) : Except String (Op.Res op) × World :=
  match op with
  | .insertTrade trade =>
      let row : TradeRow := ⟨w.lastTradeId + 1, trade, 0⟩
      c.fault.apply w (row, { w with trades := w.trades ++ [row], lastTradeId := w.lastTradeId + 1 })
  | .insertPosition position =>
      match createPosition c.uuid c.utc position w.positions with
      | some positions => c.fault.apply w (position.row c.uuid c.utc, { w with positions })
      | none => (.error integrityError, w)
  | .selectPosition id => c.fault.apply w (getPositionById id w.positions, w)
  | .selectOpen symbol =>
      c.fault.apply w (w.positions.rows.filter (fun r => r.status = .open ∧ r.symbol = symbol), w)
  | .updatePrice id pricing =>
      c.fault.apply w ((), { w with positions := updatePrice id pricing w.positions })
  | .updateClosed id closing =>
      c.fault.apply w ((), { w with positions := updateClosed id closing c.utc w.positions })
  | .getCurrentPrice _ => c.fault.apply w (c.price, w)
  | .placeOrder order =>
      match c.fault with
      | .none => (.ok c.reply, match c.reply with
          | .accepted _ => { w with orders := w.orders ++ [order] }
          | .rejected _ => w)
      | .lost text | .late text => (.error text, w)

/-- The world has no clock: the times of the rows come from the surroundings. -/
def handler : Handler Op Op.Res String World Env where
  exec := exec
  clock _ := 0

@[simp] theorem handler_exec : handler.exec = exec := rfl

def addTrade (trade : NewTrade) : Desk TradeRow := await (.insertTrade trade)

def createPosition (position : NewPosition) : Desk Position := await (.insertPosition position)

def getPositionById (id : String) : Desk (Option Position) := await (.selectPosition id)

def closePosition (id : String) (closePrice : ℚ) (exitTradeId : Option ℕ) : Desk (Option Position) :=
  closeVia getPositionById (fun id c => await (.updateClosed id c)) id closePrice exitTradeId

/-- One symbol of `update_open_position_prices`; the count is of the rows it has read. -/
def updateSymbolPrices (symbol : String) (currentPrice : ℚ) : Desk ℕ := do
  let rows ← await (.selectOpen symbol)
  Prog.forEach (fun row => await (.updatePrice row.id (row.pricing currentPrice))) rows
  return rows.length

def updateOpenPositionPrices : List (String × ℚ) → Desk ℕ
  | [] => return 0
  | (symbol, currentPrice) :: priceUpdates => do
      let updated ← updateSymbolPrices symbol currentPrice
      let rest ← updateOpenPositionPrices priceUpdates
      return updated + rest

inductive Call
  | create (position : NewPosition)
  | updatePrices (priceUpdates : List (String × ℚ))
  | close (id : String) (closePrice : ℚ) (exitTradeId : Option ℕ)

def Call.prog : Call → Desk Unit
  | .create position => do
      let _ ← createPosition position
      return ()
  | .updatePrices priceUpdates => do
      let _ ← updateOpenPositionPrices priceUpdates
      return ()
  | .close id closePrice exitTradeId => do
      let _ ← closePosition id closePrice exitTradeId
      return ()

/-- What one call can do to the positions. -/
inductive RowStep (op : Op) (c : Env) (T T' : Positions) : Prop
  | same (kept : T' = T)
  | inserted (p : NewPosition) (called : op = .insertPosition p) (fresh : c.uuid ∉ T.rows.map Position.id)
      (rows : T'.rows = T.rows ++ [p.row c.uuid c.utc])
  | priced (id : String) (pricing : Pricing) (called : op = .updatePrice id pricing)
      (written : T' = TradeTracker.updatePrice id pricing T)
  | closed (id : String) (closing : Closing) (called : op = .updateClosed id closing)
      (written : T' = TradeTracker.updateClosed id closing c.utc T)

theorem Fault.apply_world (P : World → Prop) {α : Type} {f : Fault} {w : World} {r : α × World}
    (hw : P w) (hr : P r.2) : P (f.apply w r).2 := by
  cases f <;> assumption

def Op.isOrder : Op → Bool
  | .placeOrder _ => true
  | _ => false

def Op.isStatement : Op → Bool
  | .getCurrentPrice _ | .placeOrder _ => false
  | _ => true

theorem exec_orders {op : Op} (h : op.isOrder = false) (c : Env) (w : World) : (exec op c w).2.orders = w.orders := by
  cases op with
  | placeOrder => cases h
  | insertPosition p =>
      simp only [exec]
      split
      · exact Fault.apply_world (·.orders = w.orders) rfl rfl
      · rfl
  | _ => exact Fault.apply_world (·.orders = w.orders) rfl rfl

theorem exec_rows (op : Op) (c : Env) (w : World) : RowStep op c w.positions (exec op c w).2.positions := by
  cases op with
  | insertPosition p =>
      simp only [exec]
      split
      · next T hT =>
          obtain ⟨hfresh, hrows⟩ := TradeTracker.createPosition_rows hT
          exact Fault.apply_world (fun w' => RowStep _ c w.positions w'.positions) (.same rfl)
            (.inserted p rfl hfresh hrows)
      · exact .same rfl
  | updatePrice id pricing =>
      exact Fault.apply_world (fun w' => RowStep _ c w.positions w'.positions) (.same rfl)
        (.priced id pricing rfl rfl)
  | updateClosed id closing =>
      exact Fault.apply_world (fun w' => RowStep _ c w.positions w'.positions) (.same rfl)
        (.closed id closing rfl rfl)
  | placeOrder order =>
      simp only [exec]
      split
      · split <;> exact .same rfl
      all_goals exact .same rfl
  | insertTrade | selectPosition | selectOpen | getCurrentPrice =>
      exact Fault.apply_world (fun w' => RowStep _ c w.positions w'.positions) (.same rfl) (.same rfl)

section Statement

variable {op : Op} {c : Env} {T T' : Positions}

/-- What a statement makes of a row that is there: the row, or the row with new prices, or
the row closed. -/
theorem RowStep.kept (h : RowStep op c T T') {r : Position} (hr : r ∈ T.rows) :
    ∃ r' ∈ T'.rows, asCreated r' = asCreated r ∧
      (r' = r ∨ (∃ pricing, op = .updatePrice r.id pricing ∧ r' = r.reprice pricing) ∨
        ∃ closing, op = .updateClosed r.id closing ∧ r' = r.close closing c.utc) := by
  cases h with
  | same kept => exact ⟨r, kept ▸ hr, rfl, .inl rfl⟩
  | inserted p _ _ rows => exact ⟨r, by rw [rows]; exact List.mem_append_left _ hr, rfl, .inl rfl⟩
  | priced id pricing called written =>
      have hmem : (if r.id = id then r.reprice pricing else r) ∈ T'.rows := by
        rw [written]
        exact List.mem_map.2 ⟨r, hr, rfl⟩
      by_cases hid : r.id = id
      · rw [if_pos hid] at hmem
        exact ⟨_, hmem, rfl, .inr (.inl ⟨pricing, hid ▸ called, rfl⟩)⟩
      · rw [if_neg hid] at hmem
        exact ⟨r, hmem, rfl, .inl rfl⟩
  | closed id closing called written =>
      have hmem : (if r.id = id then r.close closing c.utc else r) ∈ T'.rows := by
        rw [written]
        exact List.mem_map.2 ⟨r, hr, rfl⟩
      by_cases hid : r.id = id
      · rw [if_pos hid] at hmem
        exact ⟨_, hmem, rfl, .inr (.inr ⟨closing, hid ▸ called, rfl⟩)⟩
      · rw [if_neg hid] at hmem
        exact ⟨r, hmem, rfl, .inl rfl⟩

theorem row_unique {r r' : Position} (hr : r ∈ T.rows) (hr' : r' ∈ T.rows) (hid : r.id = r'.id) : r = r' :=
  List.inj_on_of_nodup_map T.nodup hr hr' hid

/-- Where a row comes from: it has been inserted, or a row with its id was there. -/
theorem RowStep.origin (h : RowStep op c T T') {r' : Position} (hr' : r' ∈ T'.rows) :
    (∃ p, op = .insertPosition p ∧ T'.rows = T.rows ++ [p.row c.uuid c.utc] ∧ r' = p.row c.uuid c.utc) ∨
    ∃ r ∈ T.rows, asCreated r' = asCreated r ∧
      (r' = r ∨ (∃ pricing, op = .updatePrice r.id pricing ∧ r' = r.reprice pricing) ∨
        ∃ closing, op = .updateClosed r.id closing ∧ r' = r.close closing c.utc) := by
  have hsource : (∃ r ∈ T.rows, r.id = r'.id) ∨
      ∃ p, op = .insertPosition p ∧ T'.rows = T.rows ++ [p.row c.uuid c.utc] ∧ r' = p.row c.uuid c.utc := by
    cases h with
    | same kept => exact .inl ⟨r', kept ▸ hr', rfl⟩
    | inserted p called _ rows =>
        rcases List.mem_append.1 (rows ▸ hr') with hold | hnew
        · exact .inl ⟨r', hold, rfl⟩
        · exact .inr ⟨p, called, rows, List.mem_singleton.1 hnew⟩
    | priced id pricing _ written =>
        obtain ⟨r, hr, rfl⟩ := List.mem_map.1 (written ▸ hr')
        exact .inl ⟨r, hr, by split <;> rfl⟩
    | closed id closing _ written =>
        obtain ⟨r, hr, rfl⟩ := List.mem_map.1 (written ▸ hr')
        exact .inl ⟨r, hr, by split <;> rfl⟩
  rcases hsource with ⟨r, hr, hid⟩ | hnew
  · obtain ⟨r'', hr'', hterms, hform⟩ := h.kept hr
    have he : r' = r'' := row_unique hr' hr'' (hid.symm.trans (congrArg Prod.fst hterms).symm)
    subst he
    exact .inr ⟨r, hr, hterms, hform⟩
  · exact .inl hnew

end Statement

end Autr.Infra.TradeDb
