import Autr.Async.Tape
import Autr.Services.Reconcile

namespace Autr.Services.Bookkeeping

open Autr.Async Autr.Infra Bybit TradeTracker Executor

/-- The net spot quantity of a symbol by `get_current_positions`. -/
def netSpot (symbol : String) (trades : List Trade) : ℚ :=
  ((getCurrentPositions symbol "spot" trades).map CurrentPosition.totalQuantity).getD 0

def rowsOf (status : Status) (T : Positions) : List Position := T.rows.filter (fun r => r.status = status)

def closedPnl (T : Positions) : ℚ := ((rowsOf .closed T).map Position.unrealizedPnl).sum

/-- Two records of one holding: the open rows, of which there is at most one, and the trades. -/
structure Booked (symbol : String) (T : Positions) (trades : List Trade) : Prop where
  single : (rowsOf .open T).length ≤ 1
  sound : ∀ r ∈ rowsOf .open T, 0 < r.quantity ∧ r.dollarAmount = r.entryPrice * r.quantity
  ledger : netSpot symbol trades = localQty (rowsOf .open T)

structure Session where
  world : World
  returned : ℚ

def pnlOf : Except Exc Outcome → ℚ
  | .ok (.success _ _ _ (some (pnl, _))) => pnl
  | _ => 0

/-- One call, from its first await to its last. -/
def Session.step (S : Setting) (s : Session) (l : Call × (Op → ℕ → Env)) : Session :=
  let r := eval ((handler S).taped (fun _ => true)) l.2 l.1.prog (s.world, 0)
  ⟨r.2.1, s.returned + pnlOf r.1⟩

def filledOf : OrderResult → Option ℚ
  | .success _ filled => some filled
  | .failure _ => none

/-- What is assumed of an accepted order: a buy fills something, and a sell what is open. -/
def Filled (side : Side) (filled : ℚ) (T : Positions) : Prop :=
  match side with
  | .buy => 0 < filled
  | .sell => filled = localQty (rowsOf .open T)

/-- The answers that are assumed. The stores do not fail. -/
def Fair (S : Setting) (op : Op) (c : Env) (w : World) : Prop :=
  match op with
  | .submitOrder _ side qty =>
      ∀ filled ∈ filledOf ((spotReply S side qty c).result qty), Filled side filled w.positions
  | .insertPosition _ => c.fault = .none ∧ c.uuid ∉ w.positions.rows.map Position.id
  | .acquireLock _ _ | .releaseLock _ | .get _ | .set _ _ _ | .insertTrade _ | .selectPositions _ _ _
  | .selectPosition _ | .updateClosed _ _ => c.fault = .none
  | _ => True

def saysSold : Op → Bool
  | .notify (.sold _ _ _ _ _ _) => true
  | _ => false

/-- The notice of a successful sell does not raise. -/
def Told (op : Op) (c : Env) (_ : World) : Prop := saysSold op = true → c.fault = .none

instance (side : Side) (filled : ℚ) (T : Positions) : Decidable (Filled side filled T) :=
  match side with
  | .buy => inferInstanceAs (Decidable (0 < filled))
  | .sell => inferInstanceAs (Decidable (filled = localQty (rowsOf .open T)))

instance (S : Setting) (op : Op) (c : Env) (w : World) : Decidable (Fair S op c w) :=
  match op with
  | .submitOrder _ side qty => inferInstanceAs (Decidable
      (∀ filled ∈ filledOf ((spotReply S side qty c).result qty), Filled side filled w.positions))
  | .insertPosition _ => inferInstanceAs (Decidable (c.fault = .none ∧ c.uuid ∉ w.positions.rows.map Position.id))
  | .acquireLock _ _ | .releaseLock _ | .get _ | .set _ _ _ | .insertTrade _ | .selectPositions _ _ _
  | .selectPosition _ | .updateClosed _ _ => inferInstanceAs (Decidable (c.fault = .none))
  | .calculateSafeOrderSize _ _ | .getBalance | .getCurrentPrice _ | .placeLinearOrder _ _ _ _
  | .getLinearPositions _ | .getWalletBalance | .getLinearTicker _ | .setLeverage _ _ _ | .notify _ => .isTrue trivial

instance (op : Op) (c : Env) (w : World) : Decidable (Told op c w) :=
  inferInstanceAs (Decidable (saysSold op = true → c.fault = .none))

def Answers (Ok : Op → Env → World → Prop) (S : Setting) (s : Session) (l : Call × (Op → ℕ → Env)) : Prop :=
  l.1.prog.Played (handler S) (fun _ => true) l.2 Ok (s.world, 0)

instance (Ok : Op → Env → World → Prop) [∀ op c w, Decidable (Ok op c w)] (S : Setting) (s : Session)
    (l : Call × (Op → ℕ → Env)) : Decidable (Answers Ok S s l) :=
  Prog.Answered.decidable l.1.prog (s.world, 0)

/-- What the calls keep: the one open row is a long position of the symbol, and every
trade is a spot trade. -/
structure Books (symbol : String) (T : Positions) (trades : List Trade) : Prop where
  rows : rowsOf .open T = [] ∨ ∃ r, rowsOf .open T = [r] ∧ 0 < r.quantity ∧
    r.dollarAmount = r.entryPrice * r.quantity ∧ r.positionType = "long" ∧ r.symbol = symbol
  spot : ∀ t ∈ trades, t.positionType = "spot"
  ledger : netSpot symbol trades = localQty (rowsOf .open T)

section Ledger

variable {symbol : String} {trades : List Trade} {T T' : Positions}

theorem netSpot_eq (h : ∀ t ∈ trades, t.positionType = "spot") : netSpot symbol trades =
    ((trades.filter (fun t => t.counted ∧ t.symbol = symbol)).map (Trade.signed Trade.quantity)).sum := by
  have hgroup : groupOf symbol "spot" trades = trades.filter (fun t => t.counted ∧ t.symbol = symbol) := by
    refine List.filter_congr (fun t ht => ?_)
    simp [h t ht]
  have hempty : groupOf symbol "" trades = [] := by
    refine List.filter_eq_nil_iff.2 (fun t ht => ?_)
    simp [h t ht]
  rw [netSpot, getCurrentPositions, listedTrades, if_neg (by decide), hempty, hgroup]
  cases trades.filter (fun t => t.counted ∧ t.symbol = symbol) with
  | nil => rfl
  | cons t ts => simp [summarize]

theorem netSpot_append (h : ∀ t ∈ trades, t.positionType = "spot") (side : String) (qty price : ℚ)
    (signal orderId : String) (hside : Text.lower side.toList = "buy".toList ∨ Text.lower side.toList = "sell".toList) :
    netSpot symbol (trades ++ [filledTrade symbol side qty price signal orderId]) = netSpot symbol trades +
      (filledTrade symbol side qty price signal orderId).signed Trade.quantity := by
  have hcounted : (filledTrade symbol side qty price signal orderId).counted = true := by
    have hfilled : Text.lower "filled".toList = "filled".toList := by decide
    rcases hside with hside | hside <;>
      simp only [Trade.counted, Trade.hasSide, filledTrade, hfilled, hside, decide_true, Bool.true_or,
        Bool.or_true, Bool.and_self]
  rw [netSpot_eq h, netSpot_eq (fun t ht => ?_)]
  · have hone : ∀ t : Trade, t.counted = true → t.symbol = symbol →
        [t].filter (fun t => t.counted ∧ t.symbol = symbol) = [t] := fun t h₁ h₂ => by simp [h₁, h₂]
    rw [List.filter_append, hone _ hcounted rfl]
    simp
  · rcases List.mem_append.1 ht with ht | ht
    · exact h t ht
    · rw [List.mem_singleton.1 ht]
      rfl

theorem rowsOf_append {status : Status} {r : Position} (h : T'.rows = T.rows ++ [r]) :
    rowsOf status T' = rowsOf status T ++ if r.status = status then [r] else [] := by
  by_cases hs : r.status = status <;> simp [rowsOf, h, hs]

theorem signed_buy (symbol : String) (qty price : ℚ) (signal orderId : String) :
    (filledTrade symbol "Buy" qty price signal orderId).signed Trade.quantity = qty :=
  if_pos (by decide : decide (Text.lower "Buy".toList = "buy".toList) = true)

theorem signed_sell (symbol : String) (qty price : ℚ) (signal orderId : String) :
    (filledTrade symbol "Sell" qty price signal orderId).signed Trade.quantity = -qty :=
  (if_neg (by decide : ¬ decide (Text.lower "Sell".toList = "buy".toList) = true)).trans
    (if_pos (by decide : decide (Text.lower "Sell".toList = "sell".toList) = true))

theorem spot_append (h : ∀ t ∈ trades, t.positionType = "spot") (side : String) (qty price : ℚ)
    (signal orderId : String) :
    ∀ t ∈ trades ++ [filledTrade symbol side qty price signal orderId], t.positionType = "spot" := by
  intro t ht
  rcases List.mem_append.1 ht with ht | ht
  · exact h t ht
  · rw [List.mem_singleton.1 ht]
    rfl

theorem books_buy (hb : Books symbol T trades) (hnone : rowsOf .open T = []) {qty price t : ℚ} (hq : 0 < qty)
    {id : String} (hrows : T'.rows = T.rows ++ [(longPosition symbol price qty).row id t]) (signal orderId : String) :
    Books symbol T' (trades ++ [filledTrade symbol "Buy" qty price signal orderId]) ∧ closedPnl T' = closedPnl T := by
  have hopen : rowsOf .open T' = [(longPosition symbol price qty).row id t] := by
    rw [rowsOf_append hrows, hnone]
    rfl
  refine ⟨⟨.inr ⟨_, hopen, hq, mul_comm _ _, rfl, rfl⟩, spot_append hb.spot _ _ _ _ _, ?_⟩, ?_⟩
  · rw [netSpot_append hb.spot _ _ _ _ _ (.inl (by decide)), hb.ledger, hnone, hopen, signed_buy]
    simp [localQty, longPosition, NewPosition.row]
  · rw [closedPnl, rowsOf_append hrows]
    simp [closedPnl, longPosition, NewPosition.row]

theorem books_sell_none (hb : Books symbol T trades) (hnone : rowsOf .open T = []) (price : ℚ)
    (signal orderId : String) : Books symbol T (trades ++ [filledTrade symbol "Sell" 0 price signal orderId]) where
  rows := .inl hnone
  spot := spot_append hb.spot _ _ _ _ _
  ledger := by
    rw [netSpot_append hb.spot _ _ _ _ _ (.inr (by decide)), hb.ledger, signed_sell, neg_zero, add_zero]

theorem rowsOf_open_updateClosed (id : String) (c : Closing) (t : ℚ) (T : Positions) :
    rowsOf .open (updateClosed id c t T) = (rowsOf .open T).filter (fun r => r.id ≠ id) := by
  rw [rowsOf, rowsOf, updateClosed_rows]
  induction T.rows with
  | nil => rfl
  | cons r rows ih =>
      by_cases hid : r.id = id <;> by_cases hs : r.status = .open <;> simp_all [Position.close]

/-- Closing an open row moves its profit to the closed ones. -/
theorem closedPnl_updateClosed {r : Position} (hr : r ∈ T.rows) (hopen : r.status = .open) (c : Closing) (t : ℚ) :
    closedPnl (updateClosed r.id c t T) = closedPnl T + c.unrealizedPnl := by
  have hnodup := T.nodup
  rw [closedPnl, closedPnl, rowsOf, rowsOf, updateClosed_rows]
  generalize T.rows = rows at hr hnodup
  induction rows with
  | nil => cases hr
  | cons x rows ih =>
      obtain ⟨hx, hrest⟩ := List.nodup_cons.1 (by simpa only [List.map_cons] using hnodup)
      rcases List.mem_cons.1 hr with rfl | hr
      · have hkept : rows.map (fun y => if y.id = r.id then y.close c t else y) = rows := by
          refine (List.map_congr_left (fun y hy => if_neg (fun he => ?_))).trans (List.map_id rows)
          exact hx (he ▸ List.mem_map_of_mem hy)
        simp only [List.map_cons, if_true, hkept]
        simp [Position.close, hopen, add_comm]
      · have hne : x.id ≠ r.id := fun he => hx (he ▸ List.mem_map_of_mem hr)
        have hi := ih hr hrest
        by_cases hs : x.status = .closed
        · simp [hne, hs, hi, add_assoc]
        · simp [hne, hs, hi]

theorem books_sell (hb : Books symbol T trades) {r : Position} (hone : rowsOf .open T = [r]) (price t : ℚ)
    (signal orderId : String) :
    Books symbol (updateClosed r.id (r.closing price none) t T)
        (trades ++ [filledTrade symbol "Sell" r.quantity price signal orderId]) ∧
      closedPnl (updateClosed r.id (r.closing price none) t T) =
        closedPnl T + (r.quantity * price - r.dollarAmount) := by
  have hr : r ∈ rowsOf .open T := hone ▸ List.mem_singleton.2 rfl
  obtain ⟨hmem, hopen⟩ := List.mem_filter.1 hr
  obtain ⟨r', hone', _, hdollar, hlong, _⟩ := hb.rows.resolve_left (by rw [hone]; exact List.cons_ne_nil _ _)
  obtain rfl : r = r' := List.singleton_inj.1 (hone.symm.trans hone')
  have hnone : rowsOf .open (updateClosed r.id (r.closing price none) t T) = [] := by
    rw [rowsOf_open_updateClosed, hone]
    simp
  refine ⟨⟨.inl hnone, spot_append hb.spot _ _ _ _ _, ?_⟩, ?_⟩
  · rw [netSpot_append hb.spot _ _ _ _ _ (.inr (by decide)), hb.ledger, hone, hnone, signed_sell]
    simp [localQty]
  · rw [closedPnl_updateClosed hmem (of_decide_eq_true hopen)]
    simp only [Position.closing, calcPnl, hlong, hdollar]
    rw [if_neg (by decide)]
    ring

/-- The open row, if there is one, has been closed. -/
def ClosedOut (closePrice : ℚ) (T T' : Positions) : Prop :=
  (rowsOf .open T = [] ∧ T' = T) ∨
    ∃ r t, rowsOf .open T = [r] ∧ T' = updateClosed r.id (r.closing closePrice none) t T

/-- Selling all that is open and closing its row keeps the books, and the profit of the
sale is the one of the row. -/
theorem books_closedOut (hb : Books symbol T trades) {price : ℚ} (hc : ClosedOut price T T')
    (signal orderId : String) :
    Books symbol T' (trades ++ [filledTrade symbol "Sell" (localQty (rowsOf .open T)) price signal orderId]) ∧
      closedPnl T' = closedPnl T +
        (localQty (rowsOf .open T) * price - ((rowsOf .open T).map invested).sum) := by
  rcases hc with ⟨hnone, rfl⟩ | ⟨r, t, hone, rfl⟩
  · rw [hnone]
    exact ⟨books_sell_none hb hnone price signal orderId, by simp [localQty]⟩
  · obtain ⟨r', hone', _, hdollar, _⟩ := hb.rows.resolve_left (by rw [hone]; exact List.cons_ne_nil _ _)
    obtain rfl : r = r' := List.singleton_inj.1 (hone.symm.trans hone')
    have hinvested : invested r = r.dollarAmount := by
      rw [invested, ← hdollar, ite_self]
    obtain ⟨hbooks, hpnl⟩ := books_sell hb hone price t signal orderId
    rw [hone]
    simpa [localQty, hinvested] using And.intro hbooks hpnl

theorem getPositions_books (hb : Books symbol T trades) :
    getPositions (some .open) symbol defaultLimit T = rowsOf .open T := by
  have hopen : openRows symbol T = (rowsOf .open T).filter (OfSymbol symbol) := by
    rw [openRows, rowsOf, List.filter_filter]
    exact List.filter_congr (fun r _ => by simp [selected_open, Bool.and_comm])
  rw [getPositions_open, hopen]
  rcases hb.rows with hnone | ⟨r, hone, _, _, _, hsymbol⟩
  · rw [hnone]
    rfl
  · have hr : OfSymbol symbol r := .inr hsymbol
    rw [hone]
    simp [hr, Store.newest, defaultLimit]

end Ledger

def Admitted (S : Setting) (told : Prop) (op : Op) (c : Env) (w : World) : Prop := Fair S op c w ∧ (told → Told op c w)

/-- The tables are as they were. -/
def SameTables (w w' : World) : Prop := w'.positions = w.positions ∧ w'.trades = w.trades

theorem SameTables.trans {w w' w'' : World} (h : SameTables w w') (h' : SameTables w' w'') : SameTables w w'' :=
  ⟨h'.1.trans h.1, h'.2.trans h.2⟩

def Quiet : Op → Prop
  | .insertTrade _ | .insertPosition _ | .updateClosed _ _ => False
  | _ => True

section Calls

variable {S : Setting} {told : Prop} {w : World}

theorem exec_quiet {op : Op} (h : Quiet op) (c : Env) (w : World) : SameTables w (exec S op c w).2 := by
  cases op with
  | insertTrade | insertPosition | updateClosed => exact h.elim
  | calculateSafeOrderSize | submitOrder | getCurrentPrice | placeLinearOrder | getLinearPositions
  | getWalletBalance | getLinearTicker | setLeverage => exact ⟨rfl, rfl⟩
  | _ => exact Fault.apply_world (SameTables w) ⟨rfl, rfl⟩ ⟨rfl, rfl⟩

theorem wp_quiet {op : Op} (h : Quiet op) {Q : Except Exc op.Res → World → Prop}
    (hQ : ∀ r w', SameTables w w' → Q r w') : (await op).wp ((handler S).spec (Admitted S told)) Q w := by
  rw [Prog.wp_perform]
  exact fun c _ => hQ _ _ (exec_quiet h c w)

theorem wp_selectPositions {status : Option Status} {symbol : String} {limit : ℕ}
    {Q : Except Exc (List Position) → World → Prop}
    (hQ : ∀ w', SameTables w w' → Q (.ok (getPositions status symbol limit w.positions)) w') :
    (await (.selectPositions status symbol limit)).wp ((handler S).spec (Admitted S told)) Q w := by
  rw [Prog.wp_perform]
  intro c hc
  have hf : c.fault = .none := hc.1
  simp only [handler_exec, exec, hf, Fault.apply]
  exact hQ _ ⟨rfl, rfl⟩

theorem wp_selectPosition {id : String} {Q : Except Exc (Option Position) → World → Prop}
    (hQ : ∀ w', SameTables w w' → Q (.ok (getPositionById id w.positions)) w') :
    (await (.selectPosition id)).wp ((handler S).spec (Admitted S told)) Q w := by
  rw [Prog.wp_perform]
  intro c hc
  have hf : c.fault = .none := hc.1
  simp only [handler_exec, exec, hf, Fault.apply]
  exact hQ _ ⟨rfl, rfl⟩

theorem wp_set {key value : String} {ex : Option ℚ} {Q : Except Exc Unit → World → Prop}
    (hQ : ∀ w', SameTables w w' → Q (.ok ()) w') :
    (await (.set key value ex)).wp ((handler S).spec (Admitted S told)) Q w := by
  rw [Prog.wp_perform]
  intro c hc
  have hf : c.fault = .none := hc.1
  simp only [handler_exec, exec, hf, Fault.apply]
  exact hQ _ ⟨rfl, rfl⟩

theorem wp_releaseLock {key : String} {Q : Except Exc Unit → World → Prop}
    (hQ : ∀ w', SameTables w w' → Q (.ok ()) w') :
    (await (.releaseLock key)).wp ((handler S).spec (Admitted S told)) Q w := by
  rw [Prog.wp_perform]
  intro c hc
  have hf : c.fault = .none := hc.1
  simp only [handler_exec, exec, hf, Fault.apply]
  exact hQ _ ⟨rfl, rfl⟩

theorem wp_insertTrade {trade : Trade} {Q : Except Exc Unit → World → Prop}
    (hQ : ∀ w', w'.positions = w.positions → w'.trades = w.trades ++ [trade] → Q (.ok ()) w') :
    (await (.insertTrade trade)).wp ((handler S).spec (Admitted S told)) Q w := by
  rw [Prog.wp_perform]
  intro c hc
  have hf : c.fault = .none := hc.1
  simp only [handler_exec, exec, hf, Fault.apply]
  exact hQ _ rfl rfl

theorem wp_insertPosition {p : NewPosition} {Q : Except Exc Unit → World → Prop}
    (hQ : ∀ w' id t, w'.positions.rows = w.positions.rows ++ [p.row id t] → w'.trades = w.trades → Q (.ok ()) w') :
    (await (.insertPosition p)).wp ((handler S).spec (Admitted S told)) Q w := by
  rw [Prog.wp_perform]
  intro c hc
  obtain ⟨hf, hid⟩ : c.fault = .none ∧ c.uuid ∉ w.positions.rows.map Position.id := hc.1
  obtain ⟨T, hT, hrows⟩ := createPosition_fresh c.utc p hid
  simp only [handler_exec, exec, hT, hf, Fault.apply]
  exact hQ _ c.uuid c.utc hrows rfl

theorem wp_updateClosed {id : String} {closing : Closing} {Q : Except Exc Unit → World → Prop}
    (hQ : ∀ w' t, w'.positions = updateClosed id closing t w.positions → w'.trades = w.trades → Q (.ok ()) w') :
    (await (.updateClosed id closing)).wp ((handler S).spec (Admitted S told)) Q w := by
  rw [Prog.wp_perform]
  intro c hc
  have hf : c.fault = .none := hc.1
  simp only [handler_exec, exec, hf, Fault.apply]
  exact hQ _ c.utc rfl rfl

theorem wp_submitOrder {symbol : String} {side : Side} {qty : ℚ} {Q : Except Exc OrderResult → World → Prop}
    (hQ : ∀ result w', SameTables w w' → (∀ orderId filled, result = .success orderId filled →
      Filled side filled w.positions ∧ (filled = 0 → qty = 0)) → Q (.ok result) w') :
    (await (.submitOrder symbol side qty)).wp ((handler S).spec (Admitted S told)) Q w := by
  rw [Prog.wp_perform]
  intro c hc
  have hfair := hc.1
  refine hQ _ _ ⟨rfl, rfl⟩ (fun orderId filled hresult => ?_)
  have hresult : (spotReply S side qty c).result qty = .success orderId filled := hresult
  exact ⟨hfair filled (by rw [hresult]; rfl), (Reply.result_success hresult).2⟩

theorem wp_notify_sold {symbol strategy : String} {qty price pnl pnlPct : ℚ} {Q : Except Exc Unit → World → Prop}
    (hok : ∀ w', SameTables w w' → Q (.ok ()) w') (herr : ∀ e w', ¬ told → SameTables w w' → Q (.error e) w') :
    (notify (.sold symbol strategy qty price pnl pnlPct)).wp ((handler S).spec (Admitted S told)) Q w := by
  rw [notify, Prog.wp_perform]
  intro c hc
  have htold : told → c.fault = .none := fun h => hc.2 h rfl
  cases hf : c.fault with
  | none =>
      simp only [handler_exec, exec, hf, Fault.apply]
      exact hok _ ⟨rfl, rfl⟩
  | lost | late =>
      simp only [handler_exec, exec, hf, Fault.apply]
      exact herr _ _ (fun h => by simpa [hf] using htold h) ⟨rfl, rfl⟩

theorem wp_placeOrder {symbol : String} {side : Side} {qty : Option ℚ} {Q : Except Exc OrderResult → World → Prop}
    (hQ : ∀ r w', SameTables w w' → (∀ orderId filled, r = .ok (.success orderId filled) →
      Filled side filled w.positions ∧ (filled = 0 → qty.getD 0 = 0)) → Q r w') :
    (Executor.placeOrder symbol side qty).wp ((handler S).spec (Admitted S told)) Q w := by
  cases qty with
  | some q =>
      refine wp_submitOrder (fun result w' hs hf => hQ _ _ hs (fun orderId filled hr => ?_))
      exact hf orderId filled (Except.ok.inj hr)
  | none =>
      rw [Executor.placeOrder, Prog.wp_bind]
      refine wp_quiet (show Quiet (.calculateSafeOrderSize symbol side) from trivial) (fun safe w₁ hs₁ => ?_)
      cases safe with
      | error e => exact hQ _ _ hs₁ (fun _ _ hr => by cases hr)
      | ok safe =>
          cases safe with
          | none => exact hQ _ _ hs₁ (fun _ _ hr => by cases hr)
          | some q =>
              refine wp_submitOrder (fun result w₂ hs₂ hf => hQ _ _ (hs₁.trans hs₂) (fun orderId filled hr => ?_))
              rw [← hs₁.1]
              exact ⟨(hf orderId filled (Except.ok.inj hr)).1, fun _ => rfl⟩

theorem wp_closePosition {r : Position} (hr : r ∈ w.positions.rows) (hopen : r.status = .open) {closePrice : ℚ}
    {Q : Except Exc (Option Position) → World → Prop}
    (hQ : ∀ a w' t, w'.positions = updateClosed r.id (r.closing closePrice none) t w.positions →
      w'.trades = w.trades → Q (.ok a) w') :
    (closePosition r.id closePrice).wp ((handler S).spec (Admitted S told)) Q w := by
  have hlook : getPositionById r.id w.positions = some r := Store.lookup_eq_some_of_mem w.positions.nodup hr
  rw [closePosition, Prog.wp_bind]
  refine wp_selectPosition (fun w₁ hs₁ => ?_)
  simp only [hlook, Prog.out_ok, hopen, ne_eq, not_true_eq_false, if_false, Prog.wp_bind]
  refine wp_updateClosed (fun w₂ t hp ht => ?_)
  refine wp_selectPosition (fun w₃ hs₃ => ?_)
  exact hQ _ w₃ t (by rw [hs₃.1, hp, hs₁.1]) (by rw [hs₃.2, ht, hs₁.2])

theorem wp_closeListed {symbol : String} {trades : List Trade} (hb : Books symbol w.positions trades) {closePrice : ℚ}
    {Q : Except Exc Unit → World → Prop}
    (hQ : ∀ w', ClosedOut closePrice w.positions w'.positions → w'.trades = w.trades → Q (.ok ()) w') :
    (closeAll (rowsOf .open w.positions) closePrice).wp ((handler S).spec (Admitted S told)) Q w := by
  rcases hb.rows with hnone | ⟨r, hone, _⟩
  · rw [hnone]
    exact hQ w (.inl ⟨hnone, rfl⟩) rfl
  · have hr : r ∈ rowsOf .open w.positions := hone ▸ List.mem_singleton.2 rfl
    obtain ⟨hmem, hopen⟩ := List.mem_filter.1 hr
    rw [hone]
    change Prog.wp _ ((closePosition r.id closePrice >>= fun _ => pure ()) >>= fun _ => pure ()) Q w
    rw [Prog.wp_bind, Prog.wp_bind]
    exact wp_closePosition hmem (of_decide_eq_true hopen) (fun a w' t hp ht => hQ w' (.inr ⟨r, t, hone, hp⟩) ht)

/-- How a call leaves the books, and what it has said it earned. -/
def Balanced (symbol : String) (told : Prop) (T : Positions) (r : Except Exc Outcome) (w : World) : Prop :=
  Books symbol w.positions w.trades ∧ (told → closedPnl w.positions = closedPnl T + pnlOf r)

variable {symbol strategy sigId : String} {closePrice : ℚ}

theorem balanced_of_same {w' : World} (hb : Books symbol w.positions w.trades) (hs : SameTables w w')
    {r : Except Exc Outcome} (hr : pnlOf r = 0) : Balanced symbol told w.positions r w' := by
  rw [Balanced, hs.1, hs.2, hr, add_zero]
  exact ⟨hb, fun _ => rfl⟩

theorem recordBuy_balanced (hb : Books symbol w.positions w.trades) (hnone : rowsOf .open w.positions = [])
    {filled : ℚ} (hq : 0 < filled) (orderId : String) :
    (recordBuy symbol strategy sigId closePrice filled orderId).wp ((handler S).spec (Admitted S told))
      (Balanced symbol told w.positions) w := by
  rw [recordBuy, Prog.wp_bind]
  refine wp_insertTrade (fun w₁ hp₁ ht₁ => ?_)
  rw [Prog.out_ok, Prog.wp_bind, Prog.wp_attempt]
  refine wp_insertPosition (fun w₂ id t hrows ht₂ => ?_)
  rw [hp₁] at hrows
  obtain ⟨hbooks, hpnl⟩ := books_buy hb hnone hq hrows ("executor_buy:" ++ strategy ++ ":" ++ sigId) orderId
  have hend : ∀ w' r, SameTables w₂ w' → pnlOf r = 0 → Balanced symbol told w.positions r w' := by
    intro w' r hs hr
    rw [Balanced, hs.1, hs.2, ht₂, ht₁, hr, add_zero]
    exact ⟨hbooks, fun _ => hpnl⟩
  rw [Prog.out_ok, Prog.out_ok, Prog.wp_bind]
  refine wp_set (fun w₃ hs₃ => ?_)
  rw [Prog.out_ok, Prog.wp_bind]
  refine wp_quiet (show Quiet (.notify _) from trivial) (fun r w₄ hs₄ => ?_)
  cases r with
  | ok => exact hend w₄ _ (hs₃.trans hs₄) rfl
  | error e => exact hend w₄ _ (hs₃.trans hs₄) rfl

theorem recordSell_balanced (hb : Books symbol w.positions w.trades) (orderId : String) :
    (recordSell symbol strategy sigId closePrice (localQty (rowsOf .open w.positions))
      ((rowsOf .open w.positions).map invested).sum orderId).wp ((handler S).spec (Admitted S told))
      (Balanced symbol told w.positions) w := by
  rw [recordSell, Prog.wp_bind]
  refine wp_insertTrade (fun w₁ hp₁ ht₁ => ?_)
  rw [Prog.out_ok, Prog.wp_bind, Prog.wp_attempt, Prog.wp_bind]
  refine wp_selectPositions (fun w₂ hs₂ => ?_)
  have hp₂ : w₂.positions = w.positions := hs₂.1.trans hp₁
  rw [Prog.out_ok, hp₁, getPositions_books hb, ← hp₂]
  refine wp_closeListed (show Books symbol w₂.positions w.trades from hp₂ ▸ hb) (fun w₃ hclosed ht₃ => ?_)
  rw [hp₂] at hclosed ⊢
  obtain ⟨hbooks, hpnl⟩ := books_closedOut hb hclosed ("executor_sell:" ++ strategy ++ ":" ++ sigId) orderId
  have hend : ∀ w', SameTables w₃ w' → Books symbol w'.positions w'.trades ∧ closedPnl w'.positions =
      closedPnl w.positions + (localQty (rowsOf .open w.positions) * closePrice -
        ((rowsOf .open w.positions).map invested).sum) := by
    intro w' hs
    rw [hs.1, hs.2, ht₃, hs₂.2, ht₁]
    exact ⟨hbooks, hpnl⟩
  rw [Prog.out_ok, Prog.out_ok, Prog.wp_bind]
  refine wp_set (fun w₄ hs₄ => ?_)
  rw [Prog.out_ok, Prog.wp_bind]
  refine wp_notify_sold (fun w₅ hs₅ => ?_) (fun e w₅ hnot hs₅ => ?_)
  · obtain ⟨h₁, h₂⟩ := hend w₅ (hs₄.trans hs₅)
    exact ⟨h₁, fun _ => h₂⟩
  · exact ⟨(hend w₅ (hs₄.trans hs₅)).1, fun h => absurd h hnot⟩

theorem Books.same {w w' : World} (hb : Books symbol w.positions w.trades) (hs : SameTables w w') :
    Books symbol w'.positions w'.trades := by
  rw [hs.1, hs.2]
  exact hb

/-- A section that only reads before it goes on leaves the books to what follows. -/
theorem balanced_after {α : Type} {p : Svc α} {f : α → Svc Outcome} (hb : Books symbol w.positions w.trades)
    (hp : ∀ Q : Except Exc α → World → Prop, (∀ r w', SameTables w w' → Q r w') →
      p.wp ((handler S).spec (Admitted S told)) Q w)
    (hf : ∀ a w', SameTables w w' → Books symbol w'.positions w'.trades →
      (f a).wp ((handler S).spec (Admitted S told)) (Balanced symbol told w'.positions) w') :
    (p >>= f).wp ((handler S).spec (Admitted S told)) (Balanced symbol told w.positions) w := by
  rw [Prog.wp_bind]
  refine hp _ (fun r w' hs => ?_)
  cases r with
  | ok a => exact hs.1 ▸ hf a w' hs (hb.same hs)
  | error e => exact balanced_of_same hb hs rfl

theorem pure_balanced (hb : Books symbol w.positions w.trades) (reason : Refusal) :
    (pure (.refused reason) : Svc Outcome).wp ((handler S).spec (Admitted S told)) (Balanced symbol told w.positions) w :=
  balanced_of_same hb ⟨rfl, rfl⟩ rfl

theorem refuse_balanced (hb : Books symbol w.positions w.trades) (notice : Notice) (reason : Refusal) :
    (do notify notice; return .refused reason : Svc Outcome).wp ((handler S).spec (Admitted S told))
      (Balanced symbol told w.positions) w :=
  balanced_after hb (fun _ => wp_quiet (show Quiet (.notify notice) from trivial)) (fun _ _ _ hb' => pure_balanced hb' reason)

theorem wp_isProcessed {Q : Except Exc Bool → World → Prop} (hQ : ∀ r w', SameTables w w' → Q r w') :
    (isProcessed sigId).wp ((handler S).spec (Admitted S told)) Q w := by
  rw [isProcessed, Prog.wp_bind]
  refine wp_quiet (show Quiet (.get _) from trivial) (fun r w' hs => ?_)
  cases r <;> exact hQ _ w' hs

theorem buySection_balanced (hb : Books symbol w.positions w.trades) :
    (buySection symbol strategy sigId closePrice).wp ((handler S).spec (Admitted S told))
      (Balanced symbol told w.positions) w := by
  refine balanced_after hb (fun _ => wp_isProcessed) (fun processed w₁ _ hb₁ => ?_)
  split
  · exact pure_balanced hb₁ _
  rw [Prog.wp_bind]
  refine wp_selectPositions (fun w₂ hs₂ => ?_)
  rw [Prog.out_ok, getPositions_books hb₁, ← hs₂.1]
  have hb₂ := hb₁.same hs₂
  split
  · exact pure_balanced hb₂ _
  next hopen =>
  have hnone : rowsOf .open w₂.positions = [] := by simpa using hopen
  refine balanced_after hb₂ (fun _ => wp_quiet (show Quiet (.calculateSafeOrderSize symbol .buy) from trivial)) (fun safeQty w₃ hs₃ hb₃ => ?_)
  rw [← hs₃.1] at hnone
  cases safeQty with
  | none => exact refuse_balanced hb₃ _ _
  | some safeQty =>
      dsimp only
      rw [Prog.wp_bind]
      refine wp_placeOrder (fun r w₄ hs₄ hfilled => ?_)
      have hb₄ := hb₃.same hs₄
      cases r with
      | error e => exact balanced_of_same hb₃ hs₄ rfl
      | ok result =>
          rw [Prog.out_ok, ← hs₄.1]
          cases result with
          | failure error => exact refuse_balanced hb₄ _ _
          | success orderId filled =>
              have hpos : 0 < filled := (hfilled orderId filled rfl).1
              dsimp only
              rw [if_neg hpos.ne']
              exact recordBuy_balanced hb₄ (hs₄.1 ▸ hnone) hpos orderId

theorem sellSection_balanced (hb : Books symbol w.positions w.trades) (qty : Option ℚ) :
    (sellSection symbol strategy sigId closePrice qty).wp ((handler S).spec (Admitted S told))
      (Balanced symbol told w.positions) w := by
  refine balanced_after hb (fun _ => wp_isProcessed) (fun processed w₁ _ hb₁ => ?_)
  split
  · exact pure_balanced hb₁ _
  rw [Prog.wp_bind]
  refine wp_selectPositions (fun w₂ hs₂ => ?_)
  rw [Prog.out_ok, getPositions_books hb₁, ← hs₂.1]
  have hb₂ := hb₁.same hs₂
  dsimp only
  rw [Prog.wp_bind]
  refine wp_placeOrder (fun r w₃ hs₃ hfilled => ?_)
  have hb₃ := hb₂.same hs₃
  cases r with
  | error e => exact balanced_of_same hb₂ hs₃ rfl
  | ok result =>
      rw [Prog.out_ok, ← hs₃.1]
      cases result with
      | failure error => exact refuse_balanced hb₃ _ _
      | success orderId filled =>
          obtain ⟨hall, hzero⟩ := hfilled orderId filled rfl
          -- a fill of nothing is written down as the requested quantity, and that is nothing too
          have hqty : (if filled = 0 then qty.getD 0 else filled) = localQty (rowsOf .open w₃.positions) := by
            have hall : filled = localQty (rowsOf .open w₃.positions) := hs₃.1 ▸ hall
            split
            · next hz => rw [hzero hz, ← hall, hz]
            · exact hall
          dsimp only
          rw [hqty]
          exact recordSell_balanced hb₃ orderId

/-- Taking and releasing the lock leaves the books to the section in between. -/
theorem prog_balanced {call : Call} (hb : Books call.symbol w.positions w.trades) :
    call.prog.wp ((handler S).spec (Admitted S told)) (Balanced call.symbol told w.positions) w := by
  rw [Call.prog_eq]
  refine balanced_after hb (fun _ => wp_quiet (show Quiet (.acquireLock _ _) from trivial)) (fun acquired w₁ _ hb₁ => ?_)
  split
  · rw [Prog.wp_ensure]
    refine Prog.wp_mono (Handler.spec_mono _ _) _ (fun r w₂ hr => ?_) w₁ (Q := Balanced call.symbol told w₁.positions) ?_
    · refine wp_releaseLock (fun w₃ hs₃ => ?_)
      obtain ⟨hb₂, hpnl⟩ := hr
      exact ⟨hb₂.same hs₃, fun h => by rw [hs₃.1]; exact hpnl h⟩
    · cases call with
      | buy => exact buySection_balanced hb₁
      | sell => exact sellSection_balanced hb₁ _
  · exact pure_balanced hb₁ _

theorem step_balanced {s : Session} {l : Call × (Op → ℕ → Env)} (hb : Books symbol s.world.positions s.world.trades)
    (hsymbol : l.1.symbol = symbol) (ha : Answers (Admitted S told) S s l) :
    Books symbol (s.step S l).world.positions (s.step S l).world.trades ∧
      (told → s.returned = closedPnl s.world.positions →
        (s.step S l).returned = closedPnl (s.step S l).world.positions) := by
  subst hsymbol
  obtain ⟨hbooks, hpnl⟩ := taped_of_wp (prog_balanced hb) ha
  exact ⟨hbooks, fun h hreturned => (congrArg (· + pnlOf _) hreturned).trans (hpnl h).symm⟩

end Calls

theorem Books.booked {symbol : String} {T : Positions} {trades : List Trade} (hb : Books symbol T trades) :
    Booked symbol T trades where
  single := by rcases hb.rows with h | ⟨r, h, _⟩ <;> simp [h]
  sound := by
    intro r hr
    obtain ⟨r', h, hq, hd, _⟩ := hb.rows.resolve_left (List.ne_nil_of_mem hr)
    obtain rfl : r = r' := List.mem_singleton.1 (h ▸ hr)
    exact ⟨hq, hd⟩
  ledger := hb.ledger

theorem books_start (symbol : String) {w : World} (hempty : w.positions.rows = [] ∧ w.trades = []) :
    Books symbol w.positions w.trades ∧ (0 : ℚ) = closedPnl w.positions := by
  obtain ⟨hrows, htrades⟩ := hempty
  have hnone : ∀ status, rowsOf status w.positions = [] := fun status => by rw [rowsOf, hrows]; rfl
  refine ⟨⟨.inl (hnone _), by simp [htrades], ?_⟩, by simp [closedPnl, hnone]⟩
  rw [htrades, hnone]
  simp [netSpot, getCurrentPositions, listedTrades, groupOf, localQty]

/-- The two records of the holding agree after every call. What the sells have returned is
the profit of the closed rows as long as no notice of a sell raises. -/
theorem books_agree (S : Setting) (symbol : String) (w : World) (hempty : w.positions.rows = [] ∧ w.trades = [])
    (ls : List (Call × (Op → ℕ → Env))) (hsymbol : ∀ l ∈ ls, l.1.symbol = symbol)
    (hfair : AlongRun (Session.step S) (Answers (Fair S) S) ⟨w, 0⟩ ls) :
    AlwaysRun (Session.step S) (fun s => Booked symbol s.world.positions s.world.trades) ⟨w, 0⟩ ls ∧
      (AlongRun (Session.step S) (Answers Told S) ⟨w, 0⟩ ls →
        AlwaysRun (Session.step S) (fun s => s.returned = closedPnl s.world.positions) ⟨w, 0⟩ ls) := by
  obtain ⟨hbooks, hpnl⟩ := books_start symbol hempty
  have hcalls : AlongRun (Session.step S) (fun _ l => l.1.symbol = symbol) ⟨w, 0⟩ ls := alongRun_of_forall hsymbol
  constructor
  · refine AlwaysRun.mono (fun s => Books.booked) (alwaysRun_of_step (fun s l hb hok => ?_) hbooks (hcalls.and hfair))
    exact (step_balanced hb hok.1 (hok.2.mono (fun _ _ _ h => ⟨h, False.elim⟩))).1
  · intro htold
    refine AlwaysRun.mono (fun s hs => hs.2) (alwaysRun_of_step (P := fun s : Session =>
      Books symbol s.world.positions s.world.trades ∧ s.returned = closedPnl s.world.positions)
      (fun s l hb hok => ?_) ⟨hbooks, hpnl⟩ (hcalls.and (hfair.and htold)))
    obtain ⟨h₁, h₂⟩ := step_balanced hb.1 hok.1
      ((hok.2.1.and hok.2.2).mono (fun _ _ _ h => ⟨h.1, fun _ => h.2⟩))
    exact ⟨h₁, h₂ trivial hb.2⟩

def priceOf : Call → ℚ
  | .buy _ _ _ closePrice | .sell _ _ _ closePrice _ => closePrice

def calm (_ : Op) (_ : ℕ) : Env := Env.trading

def silenced : Op → ℕ → Env
  | .notify _, _ => { Env.trading with fault := .lost }
  | _, _ => Env.trading

def boughtAndSold : List Call := [.buy "BTCUSDT" "ema" "s1" 30000, .sell "BTCUSDT" "ema" "s2" 40000 none]

theorem books_agree_boughtAndSold :
    let ls := boughtAndSold.map (·, calm)
    AlwaysRun (Session.step defaults) (fun s => Booked "BTCUSDT" s.world.positions s.world.trades) ⟨.empty, 0⟩ ls ∧
      AlwaysRun (Session.step defaults) (fun s => s.returned = closedPnl s.world.positions) ⟨.empty, 0⟩ ls := by
  obtain ⟨hbooks, hpnl⟩ := books_agree defaults "BTCUSDT" .empty ⟨rfl, rfl⟩
    (boughtAndSold.map (·, calm)) (by decide) (by decide +kernel)
  exact ⟨hbooks, hpnl (by decide +kernel)⟩

/-- The row is closed with its profit, and the sell raises instead of returning it. -/
theorem sold_without_return : ¬ ∀ (S : Setting) (symbol : String) (w : World) (ls : List (Call × (Op → ℕ → Env))),
    w.positions.rows = [] ∧ w.trades = [] → (∀ l ∈ ls, l.1.symbol = symbol ∧ 0 < priceOf l.1) →
    AlongRun (Session.step S) (Answers (Fair S) S) ⟨w, 0⟩ ls →
    AlwaysRun (Session.step S) (fun s => Booked symbol s.world.positions s.world.trades ∧
      s.returned = closedPnl s.world.positions) ⟨w, 0⟩ ls := by
  intro h
  have hlast := (h defaults "BTCUSDT" .empty (boughtAndSold.map (·, silenced)) ⟨rfl, rfl⟩ (by decide +kernel)
    (by decide +kernel)).last.2
  revert hlast
  decide +kernel

end Autr.Services.Bookkeeping
