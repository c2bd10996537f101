import Autr.Store.Keyed
import Autr.Text
import Mathlib.Data.Rat.Defs
import Mathlib.Algebra.Order.Ring.Rat
import Mathlib.Order.WithBot

namespace Autr.Infra.TradeTracker

open Autr.Store

inductive Status
  | «open»
  | closed
  deriving DecidableEq

structure Trade where
  symbol : String
  side : String
  quantity : ℚ
  price : ℚ
  signal : String
  positionType : String
  status : String
  dollarAmount : ℚ
  fees : ℚ
  orderId : String
  deriving DecidableEq

/-- A row of the `positions` table, its times read as instants. -/
structure Position where
  id : String
  symbol : String
  positionType : String
  entryPrice : ℚ
  quantity : ℚ
  dollarAmount : ℚ
  currentPrice : ℚ
  unrealizedPnl : ℚ
  unrealizedPnlPercent : ℚ
  openTime : ℚ
  closeTime : Option ℚ
  status : Status
  entryTradeId : Option ℕ
  exitTradeId : Option ℕ
  deriving DecidableEq

def Trade.hasSide (side : String) (t : Trade) : Bool := Text.lower t.side.toList = side.toList

/-- The clause of `get_current_positions`: filled trades on either side. -/
def Trade.counted (t : Trade) : Bool :=
  Text.lower t.status.toList = "filled".toList && (t.hasSide "buy" || t.hasSide "sell")

def Trade.signed (x : Trade → ℚ) (t : Trade) : ℚ :=
  if t.hasSide "buy" then x t else if t.hasSide "sell" then -x t else 0

structure CurrentPosition where
  totalQuantity : ℚ
  averagePrice : ℚ
  totalInvested : ℚ
  deriving DecidableEq

def summarize (trades : List Trade) : CurrentPosition :=
  let totalQuantity := (trades.map (Trade.signed Trade.quantity)).sum
  let totalInvested := (trades.map (Trade.signed Trade.dollarAmount)).sum
  ⟨totalQuantity, if 0 < totalQuantity then totalInvested / totalQuantity else 0, totalInvested⟩

def groupOf (symbol positionType : String) (trades : List Trade) : List Trade :=
  trades.filter (fun t => t.counted ∧ t.symbol = symbol ∧ t.positionType = positionType)

/-- The trades behind an entry. An empty type is listed as spot; its group comes first, and
the one of spot replaces it. -/
def listedTrades (symbol positionType : String) (trades : List Trade) : List Trade :=
  if positionType = "" then []
  else if positionType = "spot" ∧ groupOf symbol "spot" trades = [] then groupOf symbol "" trades
  else groupOf symbol positionType trades

/-- The entry of one symbol and position type in the answer of `get_current_positions`. -/
def getCurrentPositions (symbol positionType : String) (trades : List Trade) : Option CurrentPosition :=
  match listedTrades symbol positionType trades with
  | [] => none
  | t :: ts => some (summarize (t :: ts))

abbrev Positions := Table Position.id

def calcPnl (positionType : String) (entryPrice currentPrice quantity : ℚ) : ℚ :=
  if positionType = "short" then (entryPrice - currentPrice) * quantity
  else (currentPrice - entryPrice) * quantity

def pnlPercent (pnl dollarAmount : ℚ) : ℚ := if 0 < dollarAmount then pnl / dollarAmount * 100 else 0

structure NewPosition where
  symbol : String
  positionType : String
  entryPrice : ℚ
  quantity : ℚ
  dollarAmount : ℚ
  entryTradeId : Option ℕ
  deriving DecidableEq

def NewPosition.row (p : NewPosition) (id : String) (openTime : ℚ) : Position :=
  let unrealizedPnl := calcPnl p.positionType p.entryPrice p.entryPrice p.quantity
  { id, symbol := p.symbol, positionType := p.positionType, entryPrice := p.entryPrice,
    quantity := p.quantity, dollarAmount := p.dollarAmount, currentPrice := p.entryPrice,
    unrealizedPnl, unrealizedPnlPercent := pnlPercent unrealizedPnl p.dollarAmount, openTime,
    closeTime := none, status := .open, entryTradeId := p.entryTradeId, exitTradeId := none }

def createPosition (id : String) (openTime : ℚ) (p : NewPosition) (T : Positions) : Option Positions :=
  T.insert (p.row id openTime)

def getPositionById (id : String) (T : Positions) : Option Position := lookup Position.id id T.rows

/-- The symbol clause of `get_positions`; an empty symbol adds no condition. -/
def OfSymbol (symbol : String) (p : Position) : Prop := symbol = "" ∨ p.symbol = symbol

instance (symbol : String) : DecidablePred (OfSymbol symbol) :=
  fun p => inferInstanceAs (Decidable (symbol = "" ∨ p.symbol = symbol))

def Selected (status : Option Status) (symbol : String) (p : Position) : Prop :=
  (∀ s ∈ status, p.status = s) ∧ OfSymbol symbol p

instance (status : Option Status) (symbol : String) : DecidablePred (Selected status symbol) :=
  fun p => inferInstanceAs (Decidable ((∀ s ∈ status, p.status = s) ∧ OfSymbol symbol p))

/-- The rank of a row when close times order a query: a missing one comes last. -/
def Position.closedAt (p : Position) : WithBot ℚ := p.closeTime

def defaultLimit : ℕ := 200

def getPositions (status : Option Status) (symbol : String) (limit : ℕ) (T : Positions) : List Position :=
  let rows := T.rows.filter (Selected status symbol)
  if status = some .closed then newest Position.closedAt limit rows
  else newest Position.openTime limit rows

/-- The columns `close_position` writes, computed from the row it has read. -/
structure Closing where
  currentPrice : ℚ
  unrealizedPnl : ℚ
  unrealizedPnlPercent : ℚ
  exitTradeId : Option ℕ
  deriving DecidableEq

def Position.closing (p : Position) (closePrice : ℚ) (exitTradeId : Option ℕ) : Closing :=
  let pnl := calcPnl p.positionType p.entryPrice closePrice p.quantity
  ⟨closePrice, pnl, pnlPercent pnl p.dollarAmount, exitTradeId⟩

def Position.close (c : Closing) (closeTime : ℚ) (p : Position) : Position :=
  { p with
    status := .closed, closeTime := some closeTime, currentPrice := c.currentPrice,
    unrealizedPnl := c.unrealizedPnl, unrealizedPnlPercent := c.unrealizedPnlPercent,
    exitTradeId := c.exitTradeId }

@[simp] theorem close_id (c : Closing) (closeTime : ℚ) (p : Position) : (p.close c closeTime).id = p.id := rfl

def updateClosed (id : String) (c : Closing) (closeTime : ℚ) (T : Positions) : Positions :=
  T.modify id (Position.close c closeTime) (close_id c closeTime)

/-- The statements of `close_position`, over any calls that run them. -/
def closeVia {m : Type → Type} [Monad m] (select : String → m (Option Position))
    (update : String → Closing → m Unit) (id : String) (closePrice : ℚ) (exitTradeId : Option ℕ) :
    m (Option Position) := do
  match ← select id with
  | none => return none
  | some position =>
      if position.status ≠ .open then return none
      else
        update id (position.closing closePrice exitTradeId)
        select id

/-- The columns `update_open_position_prices` writes to one row. -/
structure Pricing where
  currentPrice : ℚ
  unrealizedPnl : ℚ
  unrealizedPnlPercent : ℚ
  deriving DecidableEq

def Position.pricing (p : Position) (currentPrice : ℚ) : Pricing :=
  let pnl := calcPnl p.positionType p.entryPrice currentPrice p.quantity
  ⟨currentPrice, pnl, pnlPercent pnl p.dollarAmount⟩

def Position.reprice (c : Pricing) (p : Position) : Position :=
  { p with
    currentPrice := c.currentPrice, unrealizedPnl := c.unrealizedPnl,
    unrealizedPnlPercent := c.unrealizedPnlPercent }

@[simp] theorem reprice_id (c : Pricing) (p : Position) : (p.reprice c).id = p.id := rfl

def updatePrice (id : String) (c : Pricing) (T : Positions) : Positions :=
  T.modify id (Position.reprice c) (reprice_id c)

theorem updateClosed_rows (id : String) (c : Closing) (closeTime : ℚ) (T : Positions) :
    (updateClosed id c closeTime T).rows =
      T.rows.map (fun r => if r.id = id then r.close c closeTime else r) := rfl

theorem mem_updateClosed_of_ne {id : String} {T : Positions} {r : Position} (hr : r ∈ T.rows) (hid : r.id ≠ id)
    (c : Closing) (closeTime : ℚ) : r ∈ (updateClosed id c closeTime T).rows :=
  List.mem_map.2 ⟨r, hr, if_neg hid⟩

/-- The columns a row has from its creation on. -/
def asCreated (r : Position) : String × NewPosition × ℚ :=
  (r.id, ⟨r.symbol, r.positionType, r.entryPrice, r.quantity, r.dollarAmount, r.entryTradeId⟩, r.openTime)

theorem pricing_congr {r r' : Position} (h : asCreated r = asCreated r') (price : ℚ) :
    r.pricing price = r'.pricing price := by
  simp only [asCreated, Prod.mk.injEq, NewPosition.mk.injEq] at h
  simp [Position.pricing, h]

theorem closing_congr {r r' : Position} (h : asCreated r = asCreated r') (price : ℚ) (exit : Option ℕ) :
    r.closing price exit = r'.closing price exit := by
  simp only [asCreated, Prod.mk.injEq, NewPosition.mk.injEq] at h
  simp [Position.closing, h]

section Rows

variable (symbol : String)

def openRows (T : Positions) : List Position := T.rows.filter (Selected (some .open) symbol)

def otherRows (T : Positions) : List Position := T.rows.filter (fun r => ¬ OfSymbol symbol r)

theorem selected_open {r : Position} : Selected (some .open) symbol r ↔ r.status = .open ∧ OfSymbol symbol r := by
  simp [Selected]

theorem getPositions_open (limit : ℕ) (T : Positions) :
    getPositions (some .open) symbol limit T = newest Position.openTime limit (openRows symbol T) := by
  simp [getPositions, openRows]

theorem mem_getPositions_open {limit : ℕ} {T : Positions} {r : Position}
    (hr : r ∈ getPositions (some .open) symbol limit T) : r ∈ T.rows ∧ r.status = .open := by
  rw [getPositions_open] at hr
  obtain ⟨hmem, hselected⟩ := List.mem_filter.1 (mem_newest Position.openTime hr)
  exact ⟨hmem, ((selected_open symbol).1 (of_decide_eq_true hselected)).1⟩

theorem getPositions_open_nodup (limit : ℕ) (T : Positions) :
    ((getPositions (some .open) symbol limit T).map Position.id).Nodup := by
  rw [getPositions_open]
  have hrows : ((openRows symbol T).map Position.id).Nodup :=
    (List.Sublist.map Position.id List.filter_sublist).nodup T.nodup
  exact (List.Sublist.map Position.id (List.take_sublist _ _)).nodup
    (((List.perm_insertionSort _ _).map Position.id).nodup_iff.2 hrows)

/-- Writes that leave what a listing looks at show in the rows it lists. -/
theorem getPositions_map {g : Position → Position} {T T' : Positions} (hrows : T'.rows = T.rows.map g)
    (hstatus : ∀ r, (g r).status = r.status) (hsymbol : ∀ r, (g r).symbol = r.symbol)
    (htime : ∀ r, (g r).openTime = r.openTime) (limit : ℕ) :
    getPositions (some .open) symbol limit T' = (getPositions (some .open) symbol limit T).map g := by
  have hselected : (decide <| Selected (some .open) symbol ·) ∘ g = (decide <| Selected (some .open) symbol ·) := by
    funext r
    simp [Selected, OfSymbol, hstatus, hsymbol]
  rw [getPositions_open, getPositions_open, openRows, openRows, hrows, List.filter_map, hselected]
  exact newest_map Position.openTime g htime limit _

/-- A listing that reaches its limit nowhere lists all open rows. -/
theorem getPositions_perm {limit : ℕ} {T : Positions} (h : (openRows symbol T).length ≤ limit) :
    (getPositions (some .open) symbol limit T).Perm (openRows symbol T) := by
  rw [getPositions_open]
  exact newest_perm Position.openTime h

theorem openRows_updateClosed (id : String) (c : Closing) (closeTime : ℚ) (T : Positions) :
    openRows symbol (updateClosed id c closeTime T) = (openRows symbol T).filter (fun r => r.id ≠ id) := by
  rw [openRows, openRows, updateClosed_rows]
  induction T.rows with
  | nil => rfl
  | cons r rows ih =>
      by_cases hid : r.id = id <;> by_cases hs : Selected (some .open) symbol r <;>
        simp_all [selected_open, Position.close]

theorem otherRows_updateClosed {id : String} {T : Positions} (c : Closing) (closeTime : ℚ)
    (h : ∀ r ∈ T.rows, r.id = id → OfSymbol symbol r) :
    otherRows symbol (updateClosed id c closeTime T) = otherRows symbol T := by
  rw [otherRows, otherRows, updateClosed_rows]
  generalize T.rows = rows at h ⊢
  induction rows with
  | nil => rfl
  | cons r rows ih =>
      have hi := ih (fun r' hr' => h r' (List.mem_cons_of_mem _ hr'))
      by_cases hid : r.id = id
      · have hr := h r List.mem_cons_self hid
        have hc : OfSymbol symbol (r.close c closeTime) := hr
        simpa [hid, hr, hc] using hi
      · simp only [List.map_cons, if_neg hid, List.filter_cons, hi]

theorem ofSymbol_updateClosed {id id' : String} {T : Positions} (c : Closing) (closeTime : ℚ)
    (h : ∀ r ∈ T.rows, r.id = id' → OfSymbol symbol r) :
    ∀ r ∈ (updateClosed id c closeTime T).rows, r.id = id' → OfSymbol symbol r := by
  intro r hr hid
  rw [updateClosed_rows, List.mem_map] at hr
  obtain ⟨r', hr', rfl⟩ := hr
  split at hid
  · next he =>
      rw [if_pos he]
      exact h r' hr' hid
  · next he =>
      rw [if_neg he]
      exact h r' hr' hid

theorem ids_updateClosed (id : String) (c : Closing) (closeTime : ℚ) (T : Positions) :
    (updateClosed id c closeTime T).rows.map Position.id = T.rows.map Position.id := by
  rw [updateClosed_rows, List.map_map]
  refine List.map_congr_left (fun r _ => ?_)
  simp only [Function.comp_apply]
  split <;> rfl

theorem createPosition_fresh {id : String} {T : Positions} (openTime : ℚ) (p : NewPosition)
    (h : id ∉ T.rows.map Position.id) :
    ∃ T', createPosition id openTime p T = some T' ∧ T'.rows = T.rows ++ [p.row id openTime] :=
  insert_eq_some (fun r hr he => h (List.mem_map.2 ⟨r, hr, he⟩))

theorem createPosition_rows {id : String} {t : ℚ} {p : NewPosition} {T T' : Positions}
    (h : createPosition id t p T = some T') :
    id ∉ T.rows.map Position.id ∧ T'.rows = T.rows ++ [p.row id t] := by
  have hid : id ∉ T.rows.map Position.id := by
    intro hid
    obtain ⟨r, hr, he⟩ := List.mem_map.1 hid
    have hany : T.rows.any (fun x => x.id = (p.row id t).id) = true :=
      List.any_eq_true.2 ⟨r, hr, decide_eq_true he⟩
    rw [createPosition, Table.insert, if_pos hany] at h
    cases h
  obtain ⟨T'', hT, hrows⟩ := createPosition_fresh t p hid
  cases hT.symm.trans h
  exact ⟨hid, hrows⟩

theorem openRows_append {T T' : Positions} {id : String} {openTime : ℚ} {p : NewPosition}
    (h : T'.rows = T.rows ++ [p.row id openTime]) (hp : p.symbol = symbol) :
    openRows symbol T' = openRows symbol T ++ [p.row id openTime] := by
  have hs : Selected (some .open) symbol (p.row id openTime) := (selected_open symbol).2 ⟨rfl, .inr hp⟩
  simp [openRows, h, hs]

theorem otherRows_append {T T' : Positions} {id : String} {openTime : ℚ} {p : NewPosition}
    (h : T'.rows = T.rows ++ [p.row id openTime]) (hp : p.symbol = symbol) :
    otherRows symbol T' = otherRows symbol T := by
  have hs : OfSymbol symbol (p.row id openTime) := .inr hp
  simp [otherRows, h, hs]

end Rows

end Autr.Infra.TradeTracker
