import Autr.Async.Protocol
import Autr.Positions.PositionService

namespace Autr.Positions.TradeLinks

open Autr.Async Autr.Infra TradeTracker TradeDb PositionService

/-- A request to the service. -/
inductive Request
  | «open» (t : Trading) (symbol positionType : String) (entryPrice quantity dollarAmount : ℚ)
  | close (t : Trading) (id : String) (closePrice : Option ℚ)
  | updatePrices (priceUpdates : List (String × ℚ))

def Request.prog : Request → Desk Unit
  | .open t symbol positionType entryPrice quantity dollarAmount => do
      let _ ← openPosition t symbol positionType entryPrice quantity dollarAmount
      return ()
  | .close t id closePrice => do
      let _ ← closePosition t id closePrice
      return ()
  | .updatePrices priceUpdates => Prog.attempt
      (do
        let _ ← updateOpenPositionPrices priceUpdates
        return ())
      (fun _ => return ())

/-- What a request has in hand: the row it has read, the trade it has inserted for a row, and
the row as it has read it again to close it. -/
inductive Held
  | nothing
  | read (id : String) (p : Position)
  | entry (trade : NewTrade) (tradeId : ℕ)
  | exit (id : String) (p : Position) (trade : NewTrade) (tradeId : ℕ)
  | again (id : String) (p row : Position) (trade : NewTrade) (tradeId : ℕ)

/-- The rows it has read, under the ids it has read them by. -/
def Held.rows : Held → List (String × Position)
  | .nothing | .entry _ _ => []
  | .read id p | .exit id p _ _ => [(id, p)]
  | .again id p row _ _ => [(id, p), (id, row)]

def Held.exitTrade : Held → Option (NewTrade × ℕ)
  | .exit _ _ trade tradeId | .again _ _ _ trade tradeId => some (trade, tradeId)
  | _ => none

/-- A trade is inserted for one row, and its id goes into that row only. -/
def links : Protocol Op Op.Res String Held where
  start := .nothing
  next q _ op r := match op, r, q with
    | .selectPosition id, .ok (some p), .nothing => .read id p
    | .insertTrade trade, .ok row, .nothing => .entry trade row.id
    | .insertTrade trade, .ok row, .read id p => .exit id p trade row.id
    | .selectPosition id, .ok (some row), .exit id' p trade tradeId =>
        if id = id' then .again id p row trade tradeId else .nothing
    | .insertPosition _, _, _ | .updateClosed _ _, _, _ => .nothing
    | _, _, q => q
  allows q op := match op with
    | .insertTrade trade => (q = .nothing ∧ ∃ p orderId, trade = entryTrade p orderId) ∨
        ∃ id p price orderId, q = .read id p ∧ trade = exitTrade p price orderId
    | .insertPosition p => ∃ orderId tradeId, q = .entry (entryTrade p orderId) tradeId ∧ p.entryTradeId = some tradeId
    | .updateClosed id closing => ∃ p row price orderId tradeId,
        q = .again id p row (exitTrade p price orderId) tradeId ∧ closing = row.closing price (some tradeId)
    | _ => True
  final _ := True

section Follows

theorem recordOpen_follows (p : NewPosition) (orderId : Option String) :
    links.Follows .nothing (recordOpen p orderId) := by
  rw [Protocol.Follows, recordOpen, addTrade, Prog.wp_bind, Prog.wp_perform]
  refine ⟨.inl ⟨rfl, p, orderId, rfl⟩, fun t r => ?_⟩
  cases r with
  | error e => trivial
  | ok row =>
      rw [Prog.out_ok, Prog.wp_bind, TradeDb.createPosition, Prog.wp_perform]
      exact ⟨⟨orderId, row.id, rfl, rfl⟩, fun _ r => by cases r <;> trivial⟩

theorem afterOrder_follows {q : Held} {order : Order} {message : String} {record : Option String → Desk Result}
    (h : ∀ orderId, links.Follows q (record orderId)) : links.Follows q (afterOrder order message record) := by
  rw [Protocol.Follows, afterOrder, Prog.wp_bind, Prog.wp_perform]
  refine ⟨trivial, fun t r => ?_⟩
  rcases r with e | orderId | error
  · trivial
  · exact h orderId
  · trivial

theorem recordAtMarket_follows (p : NewPosition) (orderId : Option String) :
    links.Follows .nothing (recordAtMarket p orderId) := by
  rw [Protocol.Follows, recordAtMarket, Prog.wp_bind, Prog.wp_perform]
  refine ⟨trivial, fun t r => ?_⟩
  cases r with
  | error e => trivial
  | ok price => exact recordOpen_follows _ orderId

theorem openPosition_follows (t : Trading) (symbol positionType : String) (entryPrice quantity dollarAmount : ℚ) :
    links.Follows .nothing (openPosition t symbol positionType entryPrice quantity dollarAmount) := by
  refine Prog.wp_attempt_of links.spec_mono ?_ (fun _ _ _ => trivial)
  split
  · split
    · trivial
    · exact afterOrder_follows (fun orderId => recordAtMarket_follows _ orderId)
  · exact recordOpen_follows _ none

theorem recordClose_follows (id : String) (p : Position) (closePrice : ℚ) (orderId : Option String) :
    links.Follows (.read id p) (recordClose id p closePrice orderId) := by
  rw [Protocol.Follows, recordClose, addTrade, Prog.wp_bind, Prog.wp_perform]
  refine ⟨.inr ⟨id, p, closePrice, orderId, rfl, rfl⟩, fun t r => ?_⟩
  cases r with
  | error e => trivial
  | ok trade =>
      rw [Prog.out_ok, Prog.wp_bind, TradeDb.closePosition, closeVia, Prog.wp_bind, TradeDb.getPositionById,
        Prog.wp_perform]
      refine ⟨trivial, fun t r => ?_⟩
      rcases r with e | _ | row
      · trivial
      · trivial
      · rw [Prog.out_ok]
        by_cases hopen : row.status = .open
        · simp only [hopen, ne_eq, not_true_eq_false, if_false, Prog.wp_bind, Prog.wp_perform]
          refine ⟨⟨p, row, closePrice, orderId, trade.id, if_pos rfl, rfl⟩, fun t r => ?_⟩
          cases r with
          | error e => trivial
          | ok _ => exact ⟨trivial, fun _ r => by cases r <;> trivial⟩
        · simp only [hopen, ne_eq, not_false_eq_true, if_true]
          trivial

theorem closeFound_follows (t : Trading) (id : String) (p : Position) (closePrice : Option ℚ) :
    links.Follows (.read id p) (closeFound t id p closePrice) := by
  have hrecord : ∀ closePrice, links.Follows (.read id p)
      (if t.live then afterOrder ⟨p.symbol, exitSide p.positionType, p.quantity⟩
          "Exchange close order failed; local position unchanged." (recordClose id p closePrice)
        else recordClose id p closePrice none) := by
    intro closePrice
    split
    · exact afterOrder_follows (fun orderId => recordClose_follows id p closePrice orderId)
    · exact recordClose_follows id p closePrice none
  rw [Protocol.Follows, closeFound, Prog.wp_bind]
  cases closePrice with
  | some closePrice => exact hrecord closePrice
  | none =>
      rw [priceToClose]
      split
      · rw [Prog.wp_perform]
        refine ⟨trivial, fun t r => ?_⟩
        cases r with
        | error e => trivial
        | ok price => exact hrecord price
      · exact hrecord p.currentPrice

theorem closePosition_follows (t : Trading) (id : String) (closePrice : Option ℚ) :
    links.Follows .nothing (closePosition t id closePrice) := by
  refine Prog.wp_attempt_of links.spec_mono ?_ (fun _ _ _ => trivial)
  rw [Prog.wp_bind, TradeDb.getPositionById, Prog.wp_perform]
  refine ⟨trivial, fun t' r => ?_⟩
  rcases r with e | _ | p
  · trivial
  · trivial
  · rw [Prog.out_ok]
    by_cases hopen : p.status = .open
    · simp only [hopen, ne_eq, not_true_eq_false, if_false]
      exact closeFound_follows t id p closePrice
    · simp only [hopen, ne_eq, not_false_eq_true, if_true]
      trivial

def Prices : Op → Prop
  | .selectOpen _ | .updatePrice _ _ => True
  | _ => False

theorem updateOpenPositionPrices_prices (priceUpdates : List (String × ℚ)) :
    (updateOpenPositionPrices priceUpdates).Uses Prices := by
  induction priceUpdates with
  | nil => trivial
  | cons update priceUpdates ih =>
      refine Prog.uses_bind (Prog.uses_bind (Prog.uses_perform trivial) (fun rows => ?_))
        (fun _ => Prog.uses_bind ih (fun _ => trivial))
      exact Prog.uses_bind (Prog.uses_forEach (fun row => Prog.uses_perform trivial) rows) (fun _ => trivial)

theorem request_follows (request : Request) : links.Follows .nothing request.prog := by
  cases request with
  | «open» t symbol positionType entryPrice quantity dollarAmount =>
      exact Prog.wp_bind_of links.spec_mono
        (openPosition_follows t symbol positionType entryPrice quantity dollarAmount) (fun _ _ _ => trivial)
  | close t id closePrice =>
      exact Prog.wp_bind_of links.spec_mono (closePosition_follows t id closePrice) (fun _ _ _ => trivial)
  | updatePrices priceUpdates =>
      have huses : (Request.updatePrices priceUpdates).prog.Uses Prices := by
        refine Prog.uses_attempt
          (Prog.uses_bind (updateOpenPositionPrices_prices priceUpdates) (fun _ => ?_)) (fun _ => ?_)
        all_goals exact trivial
      refine Prog.wp_of_uses links.spec_mono (fun op q hop _ => ⟨?_, fun _ _ => trivial⟩) _ huses _ trivial
      cases op <;> trivial

end Follows

/-- Every row has its entry trade, no two rows share one, and a closed row has its exit trade,
each as it is made for the row. -/
structure Linked (w : World) : Prop where
  tradeIds : (w.trades.map TradeRow.id).Nodup
  known : ∀ t ∈ w.trades, t.id ≤ w.lastTradeId
  entry : ∀ r ∈ w.positions.rows, ∃ t ∈ w.trades, r.entryTradeId = some t.id ∧
    ∃ orderId, t.trade = entryTrade (asCreated r).2.1 orderId
  own : (w.positions.rows.map Position.entryTradeId).Nodup
  exit : ∀ r ∈ w.positions.rows, ∀ tradeId, r.exitTradeId = some tradeId → ∃ t ∈ w.trades, t.id = tradeId ∧
    ∃ price orderId, t.trade = exitTrade r price orderId
  closed : ∀ r ∈ w.positions.rows, r.status = .closed ↔ r.exitTradeId.isSome

section Step

/-- What one call can do to the trades. -/
theorem exec_trades (op : Op) (c : Env) (w : World) :
    ((exec op c w).2.trades = w.trades ∧ (exec op c w).2.lastTradeId = w.lastTradeId) ∨
      ∃ trade, op = .insertTrade trade ∧ (exec op c w).2.trades = w.trades ++ [⟨w.lastTradeId + 1, trade, 0⟩] ∧
        (exec op c w).2.lastTradeId = w.lastTradeId + 1 := by
  cases op with
  | insertTrade trade =>
      have hw : (exec (.insertTrade trade) c w).2 = w ∨ (exec (.insertTrade trade) c w).2 =
          { w with trades := w.trades ++ [⟨w.lastTradeId + 1, trade, 0⟩], lastTradeId := w.lastTradeId + 1 } :=
        Fault.apply_world (fun w' => w' = w ∨ w' = _) (.inl rfl) (.inr rfl)
      rcases hw with hw | hw <;> rw [hw]
      · exact .inl ⟨rfl, rfl⟩
      · exact .inr ⟨trade, rfl, rfl, rfl⟩
  | insertPosition p =>
      refine .inl ?_
      simp only [exec]
      split
      · exact Fault.apply_world (fun w' => w'.trades = w.trades ∧ w'.lastTradeId = w.lastTradeId) ⟨rfl, rfl⟩ ⟨rfl, rfl⟩
      · exact ⟨rfl, rfl⟩
  | placeOrder order =>
      refine .inl ?_
      simp only [exec]
      split
      · split <;> exact ⟨rfl, rfl⟩
      all_goals exact ⟨rfl, rfl⟩
  | _ =>
      exact .inl (Fault.apply_world (fun w' => w'.trades = w.trades ∧ w'.lastTradeId = w.lastTradeId) ⟨rfl, rfl⟩
        ⟨rfl, rfl⟩)

variable {op : Op} {c : Env} {w : World} {t : TradeRow}

theorem mem_exec_trades (h : t ∈ w.trades) : t ∈ (exec op c w).2.trades := by
  rcases exec_trades op c w with ⟨hsame, -⟩ | ⟨trade, -, hnew, -⟩
  · rwa [hsame]
  · rw [hnew]
    exact List.mem_append_left _ h

theorem insertTrade_ok {trade : NewTrade} {row : TradeRow} (h : (exec (.insertTrade trade) c w).1 = .ok row) :
    row = ⟨w.lastTradeId + 1, trade, 0⟩ ∧ (exec (.insertTrade trade) c w).2.trades = w.trades ++ [row] := by
  cases hf : c.fault with
  | none =>
      simp only [exec, hf, Fault.apply] at h ⊢
      cases h
      exact ⟨rfl, rfl⟩
  | lost _ | late _ =>
      simp only [exec, hf, Fault.apply] at h
      cases h

theorem selectPosition_ok {id : String} {p : Position} (h : (exec (.selectPosition id) c w).1 = .ok (some p)) :
    p ∈ w.positions.rows ∧ p.id = id := by
  cases hf : c.fault with
  | none =>
      simp only [exec, hf, Fault.apply] at h
      exact Store.mem_of_lookup (Except.ok.inj h)
  | lost _ | late _ =>
      simp only [exec, hf, Fault.apply] at h
      cases h

end Step

variable {ι : Type} [DecidableEq ι]

abbrev Requests (ι : Type) := Conf ι Op Op.Res String World Unit

def begin (requests : ι → Request) (w : World) : Requests ι := start (fun i => (requests i).prog) w

/-- The tables are linked, and what the requests have in hand will link. -/
structure Consistent (x : Requests ι) : Prop where
  disciplined : Disciplined (fun _ => links) x
  linked : Linked x.world
  entry : ∀ i trade tradeId, phase links i x.trace = .entry trade tradeId →
    (∃ t ∈ x.world.trades, t.id = tradeId ∧ t.trade = trade) ∧
      ∀ r ∈ x.world.positions.rows, r.entryTradeId ≠ some tradeId
  apart : ∀ i j trade trade' tradeId, phase links i x.trace = .entry trade tradeId →
    phase links j x.trace = .entry trade' tradeId → i = j
  exit : ∀ i trade tradeId, (phase links i x.trace).exitTrade = some (trade, tradeId) →
    ∃ t ∈ x.world.trades, t.id = tradeId ∧ t.trade = trade
  read : ∀ i id p, (id, p) ∈ (phase links i x.trace).rows →
    ∃ r ∈ x.world.positions.rows, r.id = id ∧ asCreated r = asCreated p

section Linked

variable {op : Op} {c : Env} {w : World}

theorem exitTrade_congr {r p : Position} (h : asCreated r = asCreated p) (price : ℚ) (orderId : Option String) :
    exitTrade r price orderId = exitTrade p price orderId := by
  simp only [asCreated, Prod.mk.injEq, NewPosition.mk.injEq] at h
  simp [exitTrade, h]

theorem entryTradeId_congr {r p : Position} (h : asCreated r = asCreated p) : r.entryTradeId = p.entryTradeId := by
  simp only [asCreated, Prod.mk.injEq, NewPosition.mk.injEq] at h
  exact h.2.1.2.2.2.2.2

/-- What a call writes is linked to what it has in hand. -/
theorem linked_exec (h : Linked w)
    (hinsert : ∀ p, op = .insertPosition p → ∃ orderId, ∃ t ∈ w.trades, t.trade = entryTrade p orderId ∧
      p.entryTradeId = some t.id ∧ ∀ r ∈ w.positions.rows, r.entryTradeId ≠ some t.id)
    (hclose : ∀ id closing, op = .updateClosed id closing → ∃ t ∈ w.trades, closing.exitTradeId = some t.id ∧
      ∀ r ∈ w.positions.rows, r.id = id → ∃ price orderId, t.trade = exitTrade r price orderId) :
    Linked (exec op c w).2 := by
  have hrows := exec_rows op c w
  refine ⟨?_, ?_, fun r' hr' => ?_, ?_, fun r' hr' tradeId hid => ?_, fun r' hr' => ?_⟩
  · rcases exec_trades op c w with ⟨hsame, -⟩ | ⟨trade, -, hnew, -⟩
    · rw [hsame]
      exact h.tradeIds
    · rw [hnew, List.map_append, List.map_singleton]
      refine List.nodup_append.2 ⟨h.tradeIds, List.nodup_singleton _, fun n hn m hm => ?_⟩
      obtain ⟨t, ht, rfl⟩ := List.mem_map.1 hn
      have hle := h.known t ht
      rw [List.mem_singleton.1 hm]
      exact Nat.ne_of_lt (Nat.lt_succ_of_le hle)
  · rcases exec_trades op c w with ⟨hsame, hlast⟩ | ⟨trade, -, hnew, hlast⟩
    · rw [hsame, hlast]
      exact h.known
    · rw [hnew, hlast]
      intro t ht
      rcases List.mem_append.1 ht with ht | ht
      · exact (h.known t ht).trans (Nat.le_succ _)
      · rw [List.mem_singleton.1 ht]
  · rcases hrows.origin hr' with ⟨p, hop, -, rfl⟩ | ⟨r, hr, hterms, -⟩
    · obtain ⟨orderId, t, ht, htrade, hentry, -⟩ := hinsert p hop
      exact ⟨t, mem_exec_trades ht, hentry, orderId, htrade⟩
    · obtain ⟨t, ht, hentry, orderId, htrade⟩ := h.entry r hr
      refine ⟨t, mem_exec_trades ht, (entryTradeId_congr hterms).trans hentry, orderId, ?_⟩
      rw [hterms]
      exact htrade
  · have hmap : ∀ f : Position → Position, (∀ r, (f r).entryTradeId = r.entryTradeId) →
        ((w.positions.rows.map f).map Position.entryTradeId).Nodup := by
      intro f hf
      rw [List.map_map, show Position.entryTradeId ∘ f = Position.entryTradeId from funext hf]
      exact h.own
    cases hrows with
    | same kept =>
        rw [kept]
        exact h.own
    | inserted p called _ rows =>
        obtain ⟨-, t, -, -, hentry, hfresh⟩ := hinsert p called
        rw [rows, List.map_append, List.map_singleton]
        refine List.nodup_append.2 ⟨h.own, List.nodup_singleton _, fun n hn m hm => ?_⟩
        obtain ⟨r, hr, rfl⟩ := List.mem_map.1 hn
        rw [List.mem_singleton.1 hm]
        exact fun he => hfresh r hr (he.trans hentry)
    | priced id pricing _ written =>
        rw [written]
        exact hmap _ (fun r => by split <;> rfl)
    | closed id closing _ written =>
        rw [written]
        exact hmap _ (fun r => by split <;> rfl)
  · rcases hrows.origin hr' with ⟨p, -, -, rfl⟩ | ⟨r, hr, hterms, rfl | ⟨pricing, -, rfl⟩ | ⟨closing, hop, rfl⟩⟩
    · cases hid
    · obtain ⟨t, ht, h⟩ := h.exit r' hr tradeId hid
      exact ⟨t, mem_exec_trades ht, h⟩
    · obtain ⟨t, ht, h⟩ := h.exit r hr tradeId hid
      exact ⟨t, mem_exec_trades ht, h⟩
    · obtain ⟨t, ht, hexit, htrade⟩ := hclose r.id closing hop
      refine ⟨t, mem_exec_trades ht, Option.some.inj (hexit.symm.trans hid), ?_⟩
      obtain ⟨price, orderId, htrade⟩ := htrade r hr rfl
      exact ⟨price, orderId, htrade.trans (exitTrade_congr hterms.symm price orderId)⟩
  · rcases hrows.origin hr' with ⟨p, -, -, rfl⟩ | ⟨r, hr, -, rfl | ⟨pricing, -, rfl⟩ | ⟨closing, hop, rfl⟩⟩
    · exact iff_of_false (fun h => nomatch h) (fun h => nomatch h)
    · exact h.closed r' hr
    · exact h.closed r hr
    · obtain ⟨t, -, hexit, -⟩ := hclose r.id closing hop
      exact iff_of_true rfl (Option.isSome_of_eq_some hexit)

end Linked

section Held

variable {q : Held} {t : ℚ} {op : Op} {c : Env} {w : World} {id : String} {p : Position} {trade : NewTrade}
  {tradeId : ℕ}

/-- What a call leaves in hand. -/
theorem next_cases (q : Held) (t : ℚ) (op : Op) (c : Env) (w : World) :
    links.next q t op (exec op c w).1 = .nothing ∨
    (links.next q t op (exec op c w).1 = q ∧ ∀ p, op ≠ .insertPosition p) ∨
    (∃ id, ∃ p ∈ w.positions.rows, p.id = id ∧ (links.next q t op (exec op c w).1 = .read id p ∨
      ∃ p' trade tradeId, q = .exit id p' trade tradeId ∧
        links.next q t op (exec op c w).1 = .again id p' p trade tradeId)) ∨
    ∃ trade, op = .insertTrade trade ∧
      (exec op c w).2.trades = w.trades ++ [⟨w.lastTradeId + 1, trade, 0⟩] ∧
      (links.next q t op (exec op c w).1 = .entry trade (w.lastTradeId + 1) ∨
        ∃ id p, q = .read id p ∧ links.next q t op (exec op c w).1 = .exit id p trade (w.lastTradeId + 1)) := by
  cases op with
  | insertTrade trade =>
      cases hr : (exec (.insertTrade trade) c w).1 with
      | error e => exact .inr (.inl ⟨by cases q <;> rfl, nofun⟩)
      | ok row =>
          obtain ⟨rfl, htrades⟩ := insertTrade_ok hr
          cases q with
          | nothing => exact .inr (.inr (.inr ⟨trade, rfl, htrades, .inl rfl⟩))
          | read id p => exact .inr (.inr (.inr ⟨trade, rfl, htrades, .inr ⟨id, p, rfl, rfl⟩⟩))
          | entry _ _ | exit _ _ _ _ | again _ _ _ _ _ => exact .inr (.inl ⟨rfl, nofun⟩)
  | selectPosition id =>
      cases hr : (exec (.selectPosition id) c w).1 with
      | error e => exact .inr (.inl ⟨by cases q <;> rfl, nofun⟩)
      | ok row =>
          cases row with
          | none => exact .inr (.inl ⟨by cases q <;> rfl, nofun⟩)
          | some p =>
              obtain ⟨hp, hid⟩ := selectPosition_ok hr
              cases q with
              | nothing => exact .inr (.inr (.inl ⟨id, p, hp, hid, .inl rfl⟩))
              | exit id' p' trade tradeId =>
                  by_cases he : id = id'
                  · subst he
                    exact .inr (.inr (.inl ⟨id, p, hp, hid, .inr ⟨p', trade, tradeId, rfl, if_pos rfl⟩⟩))
                  · exact .inl (if_neg he)
              | _ => exact .inr (.inl ⟨rfl, nofun⟩)
  | insertPosition p => exact .inl rfl
  | updateClosed id closing => exact .inl rfl
  | _ => exact .inr (.inl ⟨rfl, nofun⟩)

theorem held_entry (h : links.next q t op (exec op c w).1 = .entry trade tradeId) :
    (q = .entry trade tradeId ∧ ∀ p, op ≠ .insertPosition p) ∨
      (op = .insertTrade trade ∧ tradeId = w.lastTradeId + 1 ∧
        (exec op c w).2.trades = w.trades ++ [⟨tradeId, trade, 0⟩]) := by
  rcases next_cases q t op c w with hq | ⟨hq, hother⟩ | ⟨_, _, _, _, hq | ⟨_, _, _, _, hq⟩⟩ |
    ⟨trade', hop, htrades, hq | ⟨_, _, _, hq⟩⟩
  · cases hq.symm.trans h
  · exact .inl ⟨hq.symm.trans h, hother⟩
  · cases hq.symm.trans h
  · cases hq.symm.trans h
  · cases hq.symm.trans h
    exact .inr ⟨hop, rfl, htrades⟩
  · cases hq.symm.trans h

theorem held_exit (h : (links.next q t op (exec op c w).1).exitTrade = some (trade, tradeId)) :
    q.exitTrade = some (trade, tradeId) ∨ (exec op c w).2.trades = w.trades ++ [⟨tradeId, trade, 0⟩] := by
  rcases next_cases q t op c w with hq | ⟨hq, -⟩ | ⟨_, _, _, _, hq | ⟨_, _, _, hexit, hq⟩⟩ |
    ⟨trade', -, htrades, hq | ⟨_, _, _, hq⟩⟩ <;> rw [hq] at h
  · cases h
  · exact .inl h
  · cases h
  · rw [hexit]
    exact .inl h
  · cases h
  · cases h
    exact .inr htrades

theorem held_read (h : (id, p) ∈ (links.next q t op (exec op c w).1).rows) :
    (id, p) ∈ q.rows ∨ (p ∈ w.positions.rows ∧ p.id = id) := by
  rcases next_cases q t op c w with hq | ⟨hq, -⟩ | ⟨_, _, hp, hid, hq | ⟨_, _, _, hexit, hq⟩⟩ |
    ⟨_, _, _, hq | ⟨_, _, hread, hq⟩⟩ <;> rw [hq] at h
  · cases h
  · exact .inl h
  · cases List.mem_singleton.1 h
    exact .inr ⟨hp, hid⟩
  · rcases List.mem_cons.1 h with hfirst | hagain
    · rw [hexit]
      exact .inl (List.mem_singleton.2 hfirst)
    · cases List.mem_singleton.1 hagain
      exact .inr ⟨hp, hid⟩
  · cases h
  · rw [hread]
    exact .inl h

end Held

section Step

variable {x : Requests ι}

theorem Linked.entryTradeId_le {w : World} (h : Linked w) {r : Position} (hr : r ∈ w.positions.rows) {tradeId : ℕ}
    (hid : r.entryTradeId = some tradeId) : tradeId ≤ w.lastTradeId := by
  obtain ⟨t, ht, hentry, -⟩ := h.entry r hr
  rw [← Option.some.inj (hentry.symm.trans hid)]
  exact h.known t ht

theorem consistent_step (h : Consistent x) (i : ι) (c : Env) : Consistent (step handler x (i, c)) := by
  have hd := disciplined_step (fun _ => links) handler h.disciplined i c
  rcases step_cases handler x i c with ⟨_, hs⟩ | ⟨op, k, hp, hs⟩
  · rw [hs]
    exact h
  rw [hs] at hd ⊢
  have hallows := h.disciplined.allows hp
  have hrows := exec_rows op c x.world
  have hread : ∀ id p, (∃ r ∈ x.world.positions.rows, r.id = id ∧ asCreated r = asCreated p) →
      ∃ r ∈ (exec op c x.world).2.positions.rows, r.id = id ∧ asCreated r = asCreated p := by
    rintro id p ⟨r, hr, hid, hterms⟩
    obtain ⟨r', hr', hterms', -⟩ := hrows.kept hr
    exact ⟨r', hr', (congrArg Prod.fst hterms').trans hid, hterms'.trans hterms⟩
  have htrade : ∀ trade tradeId, (∃ t ∈ x.world.trades, t.id = tradeId ∧ t.trade = trade) →
      ∃ t ∈ (exec op c x.world).2.trades, t.id = tradeId ∧ t.trade = trade := by
    rintro trade tradeId ⟨t, ht, h⟩
    exact ⟨t, mem_exec_trades ht, h⟩
  have hfresh : ∀ trade tradeId j, phase links j x.trace = .entry trade tradeId →
      (j = i → ∀ p, op ≠ .insertPosition p) →
      ∀ r ∈ (exec op c x.world).2.positions.rows, r.entryTradeId ≠ some tradeId := by
    intro trade tradeId j hj hother r' hr' hid
    rcases hrows.origin hr' with ⟨p, hop, -, rfl⟩ | ⟨r, hr, hterms, -⟩
    · subst hop
      obtain ⟨orderId, tradeId', hheld, hentry⟩ := hallows
      cases Option.some.inj (hentry.symm.trans hid)
      exact hother (h.apart j i _ _ _ hj hheld) p rfl
    · exact (h.entry j trade tradeId hj).2 r hr ((entryTradeId_congr hterms).symm.trans hid)
  refine ⟨hd, linked_exec h.linked (fun p hop => ?_) (fun id closing hop => ?_), fun j trade tradeId hj => ?_,
    fun j j' trade trade' tradeId hj hj' => ?_, fun j trade tradeId hj => ?_, fun j id p hj => ?_⟩
  · subst hop
    obtain ⟨orderId, tradeId, hheld, hentry⟩ := hallows
    obtain ⟨⟨t, ht, rfl, htrade⟩, hunused⟩ := h.entry i _ tradeId hheld
    exact ⟨orderId, t, ht, htrade, hentry, hunused⟩
  · subst hop
    obtain ⟨p, row, price, orderId, tradeId, hheld, rfl⟩ := hallows
    obtain ⟨t, ht, rfl, hmade⟩ := h.exit i _ tradeId (congrArg Held.exitTrade hheld)
    obtain ⟨r₀, hr₀, hid₀, hterms⟩ := h.read i id p (hheld ▸ List.mem_cons_self)
    refine ⟨t, ht, rfl, fun r hr hid => ⟨price, orderId, ?_⟩⟩
    rw [row_unique hr hr₀ (hid.trans hid₀.symm), hmade]
    exact (exitTrade_congr hterms price orderId).symm
  · by_cases hji : j = i
    · subst hji
      rw [phase_answered] at hj
      rcases held_entry hj with ⟨hq, hother⟩ | ⟨rfl, rfl, hnew⟩
      · exact ⟨htrade _ _ (h.entry j trade tradeId hq).1, hfresh trade tradeId j hq (fun _ => hother)⟩
      · refine ⟨⟨_, by rw [handler_exec, hnew]; exact List.mem_append_right _ (List.mem_singleton_self _), rfl, rfl⟩,
          fun r' hr' hid => ?_⟩
        rcases hrows.origin hr' with ⟨p, hop, -⟩ | ⟨r, hr, hterms, -⟩
        · cases hop
        · have hle := h.linked.entryTradeId_le hr ((entryTradeId_congr hterms).symm.trans hid)
          omega
    · rw [phase_answered_ne _ _ hji] at hj
      exact ⟨htrade _ _ (h.entry j trade tradeId hj).1, hfresh trade tradeId j hj (fun he => absurd he hji)⟩
  · have hold : ∀ j trade tradeId, phase links j x.trace = .entry trade tradeId → tradeId ≤ x.world.lastTradeId := by
      intro j trade tradeId hj
      obtain ⟨⟨t, ht, rfl, -⟩, -⟩ := h.entry j trade tradeId hj
      exact h.linked.known t ht
    by_cases hji : j = i <;> by_cases hji' : j' = i
    · exact hji.trans hji'.symm
    · subst hji
      rw [phase_answered] at hj
      rw [phase_answered_ne _ _ hji'] at hj'
      rcases held_entry hj with ⟨hq, -⟩ | ⟨-, rfl, -⟩
      · exact h.apart j j' trade trade' tradeId hq hj'
      · exact absurd (hold j' trade' _ hj') (Nat.not_succ_le_self _)
    · subst hji'
      rw [phase_answered] at hj'
      rw [phase_answered_ne _ _ hji] at hj
      rcases held_entry hj' with ⟨hq, -⟩ | ⟨-, rfl, -⟩
      · exact h.apart j j' trade trade' tradeId hj hq
      · exact absurd (hold j trade _ hj) (Nat.not_succ_le_self _)
    · rw [phase_answered_ne _ _ hji] at hj
      rw [phase_answered_ne _ _ hji'] at hj'
      exact h.apart j j' trade trade' tradeId hj hj'
  · by_cases hji : j = i
    · subst hji
      rw [phase_answered] at hj
      rcases held_exit hj with hq | hnew
      · exact htrade _ _ (h.exit j trade tradeId hq)
      · exact ⟨_, by rw [handler_exec, hnew]; exact List.mem_append_right _ (List.mem_singleton_self _), rfl, rfl⟩
    · rw [phase_answered_ne _ _ hji] at hj
      exact htrade _ _ (h.exit j trade tradeId hj)
  · by_cases hji : j = i
    · subst hji
      rw [phase_answered] at hj
      rcases held_read hj with hq | ⟨hmem, hid⟩
      · exact hread id p (h.read j id p hq)
      · exact hread id p ⟨p, hmem, hid, rfl⟩
    · rw [phase_answered_ne _ _ hji] at hj
      exact hread id p (h.read j id p hj)

end Step

theorem consistent_begin (requests : ι → Request) {w : World} (hw : Linked w) : Consistent (begin requests w) :=
  ⟨disciplined_start (fun i => request_follows (requests i)) w, hw, fun _ _ _ h => (nomatch h),
    fun _ _ _ _ _ h => (nomatch h), fun _ _ _ h => (nomatch h), fun _ _ _ h => (nomatch h)⟩

/-- However requests interleave and fail, the rows and their trades stay linked. -/
theorem linked_runs (requests : ι → Request) {w : World} (hw : Linked w) (ls : List (ι × Env)) :
    Linked (runs handler (begin requests w) ls).world :=
  (run_invariant (fun x (l : ι × Env) (h : Consistent x) => consistent_step h l.1 l.2) (consistent_begin requests hw)
    ls).linked

def emptyTables : World := ⟨[], 0, Store.Table.empty, []⟩

theorem linked_empty : Linked emptyTables :=
  ⟨List.nodup_nil, fun _ h => (nomatch h), fun _ h => (nomatch h), List.nodup_nil, fun _ h => (nomatch h),
    fun _ h => (nomatch h)⟩

def paper : Trading := ⟨true, false⟩

def answer (uuid : String) : Env := ⟨.none, uuid, 1, 0, .accepted none⟩

/-- A position is opened and closed twice at once, both closings having read it open. -/
def openAndClose : Fin 3 → Request
  | 0 => .open paper "BTCUSDT" "long" 100 2 200
  | _ => .close paper "a" (some 110)

def bothClose : List (Fin 3 × Env) :=
  ([0, 0, 1, 2, 1, 2, 1, 2, 1, 2] : List (Fin 3)).map (fun i => (i, answer "a"))

theorem linked_runs_bothClose : Linked (runs handler (begin openAndClose emptyTables) bothClose).world ∧
    (runs handler (begin openAndClose emptyTables) bothClose).world.positions.rows.map Position.exitTradeId =
      [some 3] :=
  ⟨linked_runs openAndClose linked_empty bothClose, by decide +kernel⟩

end Autr.Positions.TradeLinks
