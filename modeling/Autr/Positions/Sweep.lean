import Autr.Async.Tape
import Autr.Positions.AutoClose
import Autr.Positions.PriceUpdates

namespace Autr.Positions.Sweep

open Autr.Async Autr.Infra TradeTracker TradeDb PositionService AutoClose PriceUpdates

abbrev Entry := Σ op : AutoClose.Op, Except String op.Res

/-- The tables, the prices that have been read, newest first, and their number. -/
abbrev State := (World × List Entry) × ℕ

def isQuote : AutoClose.Op → Bool
  | .desk (.getCurrentPrice _) => true
  | _ => false

abbrev recorder : Handler AutoClose.Op AutoClose.Op.Res String State (ℕ → Env) :=
  (AutoClose.handler.logged isQuote).taped isQuote

/-- The answers of a request. Prices are answered in turn, zero when the read has failed;
an order may be refused or raise, and everything else works. -/
def answer (tape : ℕ → Env) : AutoClose.Op → ℕ → Env
  | .desk (.placeOrder _), n => tape n
  | _, n => { tape n with fault := .none }

def entry (x : String × ℚ) : Entry := ⟨.desk (.getCurrentPrice x.1), .ok x.2⟩

section Calls

variable {x : Client} {tape : ℕ → Env} {w : World} {log : List Entry} {n : ℕ}

/-- The calls of the desk, as the client and the tables answer them. -/
abbrev desk (x : Client) (tape : ℕ → Env) : Handler TradeDb.Op TradeDb.Op.Res String State Unit :=
  recorder.via (answer tape) x.perform

def unfailing (c : Env) : Env := { c with fault := .none }

theorem eval_statement {op : TradeDb.Op} (h : op.isStatement = true) :
    eval (desk x tape) (fun _ => ()) (await op) ((w, log), n) =
      ((TradeDb.exec op (unfailing (tape n)) w).1, ((TradeDb.exec op (unfailing (tape n)) w).2, log), n) := by
  rw [eval_perform]
  cases op with
  | getCurrentPrice | placeOrder => cases h
  | insertPosition p => exact (eval_perform recorder (answer tape) (.desk (.insertPosition p)) _).trans rfl
  | _ => rfl

theorem eval_addTrade (trade : NewTrade) :
    eval (desk x tape) (fun _ => ()) (addTrade trade) ((w, log), n) =
      (.ok ⟨w.lastTradeId + 1, trade, 0⟩,
        (({ w with trades := w.trades ++ [⟨w.lastTradeId + 1, trade, 0⟩], lastTradeId := w.lastTradeId + 1 }, log), n)) :=
  eval_statement rfl

theorem eval_getPositionById (id : String) :
    eval (desk x tape) (fun _ => ()) (TradeDb.getPositionById id) ((w, log), n) =
      (.ok (TradeTracker.getPositionById id w.positions), ((w, log), n)) :=
  eval_statement rfl

theorem eval_updateClosed (id : String) (closing : Closing) :
    eval (α := Unit) (desk x tape) (fun _ => ()) (await (.updateClosed id closing)) ((w, log), n) =
      (.ok (), (({ w with positions := TradeTracker.updateClosed id closing (tape n).utc w.positions }, log), n)) :=
  eval_statement rfl

theorem eval_selectOpen (symbol : String) :
    eval (α := List Position) (desk x tape) (fun _ => ()) (await (.selectOpen symbol)) ((w, log), n) =
      (.ok (w.positions.rows.filter (fun r => r.status = .open ∧ r.symbol = symbol)), ((w, log), n)) :=
  eval_statement rfl

theorem eval_updatePrice (id : String) (pricing : Pricing) :
    eval (α := Unit) (desk x tape) (fun _ => ()) (await (.updatePrice id pricing)) ((w, log), n) =
      (.ok (), (({ w with positions := TradeTracker.updatePrice id pricing w.positions }, log), n)) :=
  eval_statement rfl

theorem eval_getCurrentPrice (symbol : String) :
    eval (α := ℚ) (desk x tape) (fun _ => ()) (await (.getCurrentPrice symbol)) ((w, log), n) =
      (.ok (tape n).price, ((w, entry (symbol, (tape n).price) :: log), n + 1)) :=
  (eval_perform _ _ _ _).trans rfl

theorem eval_priceRows (price : ℚ) (rows : List Position) :
    eval (desk x tape) (fun _ => ()) (Prog.forEach (fun row => await (.updatePrice row.id (row.pricing price))) rows)
        ((w, log), n) =
      (.ok (), (({ w with positions := priceRows price rows w.positions }, log), n)) := by
  induction rows generalizing w with
  | nil => rfl
  | cons row rows ih =>
      rw [eval_forEach_cons, eval_updatePrice]
      exact ih

theorem eval_updateSymbolPrices (x : Client) (tape : ℕ → Env) (w : World) (log : List Entry) (n : ℕ) (symbol : String) (price : ℚ) :
    ∃ updated, eval (desk x tape) (fun _ => ()) (updateSymbolPrices symbol price) ((w, log), n) =
      (.ok updated, (({ w with positions := priceSymbol w.positions (symbol, price) }, log), n)) := by
  simp only [updateSymbolPrices, eval_bind, eval_selectOpen, eval_priceRows, eval_pure]
  exact ⟨_, rfl⟩

theorem eval_updateOpenPositionPrices (x : Client) (tape : ℕ → Env) (w : World) (log : List Entry) (n : ℕ)
    (prices : List (String × ℚ)) :
    ∃ updated, eval (desk x tape) (fun _ => ()) (updateOpenPositionPrices prices) ((w, log), n) =
      (.ok updated, (({ w with positions := priceAll prices w.positions }, log), n)) := by
  induction prices generalizing w with
  | nil => exact ⟨0, rfl⟩
  | cons read prices ih =>
      obtain ⟨symbol, price⟩ := read
      obtain ⟨updated, hupdated⟩ := eval_updateSymbolPrices x tape w log n symbol price
      obtain ⟨rest, hrest⟩ := ih (w := { w with positions := priceSymbol w.positions (symbol, price) })
      rw [updateOpenPositionPrices, eval_bind, hupdated]
      dsimp only at hrest ⊢
      rw [eval_bind, hrest]
      exact ⟨_, rfl⟩

/-- What comes of an order: the client reads the price, and may refuse. -/
def orderReply (x : Client) (tape : ℕ → Env) (n : ℕ) (order : Order) : Except String Reply :=
  match x.orderGuard order (tape n).price with
  | some error => .ok (.rejected (some (x.describe error)))
  | none => match (tape (n + 1)).fault with
      | .none => .ok (tape (n + 1)).reply
      | .lost text | .late text => .error text

theorem eval_placeOrder (x : Client) (tape : ℕ → Env) (w : World) (log : List Entry) (n : ℕ) (order : Order) :
    ∃ orders, eval (α := Reply) (desk x tape) (fun _ => ()) (await (.placeOrder order)) ((w, log), n) =
      (orderReply x tape n order, (({ w with orders }, entry (order.symbol, (tape n).price) :: log), n + 1)) := by
  have hquote : eval recorder (answer tape) (AutoClose.getCurrentPrice order.symbol) ((w, log), n) =
      (.ok (tape n).price, ((w, entry (order.symbol, (tape n).price) :: log), n + 1)) :=
    (eval_perform _ _ _ _).trans rfl
  have hcall : eval (α := Reply) (desk x tape) (fun _ => ()) (await (.placeOrder order)) ((w, log), n) =
      eval recorder (answer tape) (x.placeOrder order) ((w, log), n) := (eval_perform _ _ _ _).trans rfl
  rw [hcall, Client.placeOrder, eval_bind, hquote, orderReply]
  dsimp only
  cases x.orderGuard order (tape n).price with
  | some error => exact ⟨w.orders, rfl⟩
  | none =>
      dsimp only
      cases hf : (tape (n + 1)).fault with
      | lost text | late text =>
          refine ⟨w.orders, ?_⟩
          rw [eval_perform]
          simp [AutoClose.exec, answer, TradeDb.exec, hf, isQuote]
      | none =>
          cases hr : (tape (n + 1)).reply with
          | rejected error =>
              refine ⟨w.orders, ?_⟩
              rw [eval_perform]
              simp [AutoClose.exec, answer, TradeDb.exec, hf, hr, isQuote]
          | accepted orderId =>
              refine ⟨w.orders ++ [order], ?_⟩
              rw [eval_perform]
              simp [AutoClose.exec, answer, TradeDb.exec, hf, hr, isQuote]

def accepted : Except String Reply → Bool
  | .ok (.accepted _) => true
  | _ => false

/-- The order that closes a row is not needed, or is accepted. -/
def GoesThrough (x : Client) (paperTrading : Bool) (tape : ℕ → Env) (p : Position) (n : ℕ) : Prop :=
  paperTrading = true ∨ accepted (orderReply x tape (n + 1) ⟨p.symbol, exitSide p.positionType, p.quantity⟩) = true

instance (x : Client) (paperTrading : Bool) (tape : ℕ → Env) (p : Position) (n : ℕ) :
    Decidable (GoesThrough x paperTrading tape p n) :=
  inferInstanceAs (Decidable (paperTrading = true ∨
    accepted (orderReply x tape (n + 1) ⟨p.symbol, exitSide p.positionType, p.quantity⟩) = true))

/-- The reads of a closing, one for the row and one for the order. -/
def closingReads (paperTrading : Bool) (tape : ℕ → Env) (p : Position) (n : ℕ) : List (String × ℚ) :=
  if paperTrading then [(p.symbol, (tape n).price)]
  else [(p.symbol, (tape n).price), (p.symbol, (tape (n + 1)).price)]

def readsPerClosing (paperTrading : Bool) : ℕ := if paperTrading then 1 else 2

theorem eval_recordClose (x : Client) (tape : ℕ → Env) (log : List Entry) (n : ℕ) {p : Position}
    (hp : p ∈ w.positions.rows) (hopen : p.status = .open) (closePrice : ℚ) (orderId : Option String) :
    ∃ result w' closing t, eval (desk x tape) (fun _ => ()) (recordClose p.id p closePrice orderId) ((w, log), n) =
      (.ok result, ((w', log), n)) ∧ w'.positions = TradeTracker.updateClosed p.id closing t w.positions := by
  have hlook : TradeTracker.getPositionById p.id w.positions = some p :=
    Store.lookup_eq_some_of_mem w.positions.nodup hp
  simp only [recordClose, eval_bind, eval_addTrade, TradeDb.closePosition, closeVia, eval_getPositionById, hlook,
    hopen, ne_eq, not_true_eq_false, if_false, eval_updateClosed, eval_pure]
  exact ⟨_, _, _, _, rfl, rfl⟩

/-- A closing reads its prices, and then closes the row or leaves it. -/
theorem eval_closePosition (x : Client) (tape : ℕ → Env) (log : List Entry) (n : ℕ) (paperTrading : Bool)
    {p : Position} (hp : p ∈ w.positions.rows) (hopen : p.status = .open) :
    ∃ result w',
      eval (desk x tape) (fun _ => ()) (PositionService.closePosition ⟨paperTrading, true⟩ p.id none) ((w, log), n) =
        (.ok result, ((w', ((closingReads paperTrading tape p n).map entry).reverse ++ log),
          n + readsPerClosing paperTrading)) ∧
      if GoesThrough x paperTrading tape p n then
        ∃ closing t, w'.positions = TradeTracker.updateClosed p.id closing t w.positions
      else w'.positions = w.positions := by
  have hlook : TradeTracker.getPositionById p.id w.positions = some p :=
    Store.lookup_eq_some_of_mem w.positions.nodup hp
  simp only [PositionService.closePosition, eval_attempt, eval_bind, eval_getPositionById, hlook, hopen, ne_eq,
    not_true_eq_false, if_false, closeFound, priceToClose, if_true, eval_getCurrentPrice, Trading.live]
  cases paperTrading with
  | true =>
      obtain ⟨result, w', closing, t, hrun, hrows⟩ :=
        eval_recordClose x tape (entry (p.symbol, (tape n).price) :: log) (n + 1) hp hopen (tape n).price none
      simp only [Bool.not_true, Bool.false_and, Bool.false_eq_true, if_false, hrun]
      refine ⟨result, w', rfl, ?_⟩
      rw [if_pos (.inl rfl)]
      exact ⟨closing, t, hrows⟩
  | false =>
      obtain ⟨orders, horder⟩ := eval_placeOrder x tape w (entry (p.symbol, (tape n).price) :: log) (n + 1)
        ⟨p.symbol, exitSide p.positionType, p.quantity⟩
      simp only [Bool.not_false, Bool.true_and, if_true, afterOrder, eval_bind, horder]
      have hthrough : GoesThrough x false tape p n ↔
          accepted (orderReply x tape (n + 1) ⟨p.symbol, exitSide p.positionType, p.quantity⟩) = true :=
        or_iff_right Bool.false_ne_true
      cases hreply : orderReply x tape (n + 1) ⟨p.symbol, exitSide p.positionType, p.quantity⟩ with
      | error text =>
          refine ⟨_, _, rfl, ?_⟩
          rw [if_neg (fun h => by simpa [hreply, accepted] using hthrough.1 h)]
      | ok reply =>
          cases reply with
          | rejected error =>
              refine ⟨_, _, rfl, ?_⟩
              rw [if_neg (fun h => by simpa [hreply, accepted] using hthrough.1 h)]
          | accepted orderId =>
              obtain ⟨result, w', closing, t, hrun, hrows⟩ := eval_recordClose x tape
                (entry (p.symbol, (tape (n + 1)).price) :: entry (p.symbol, (tape n).price) :: log) (n + 1 + 1)
                (w := { w with orders }) hp hopen (tape n).price orderId
              simp only [hrun]
              refine ⟨result, w', rfl, ?_⟩
              rw [if_pos (hthrough.2 (by rw [hreply]; rfl))]
              exact ⟨closing, t, hrows⟩

/-- The reads of some symbols in turn. -/
def readFrom (tape : ℕ → Env) (n : ℕ) (symbols : List String) : List (String × ℚ) :=
  (symbols.zipIdx n).map (fun x => (x.1, (tape x.2).price))

theorem eval_currentPrices (tape : ℕ → Env) (w : World) (log : List Entry) (n : ℕ) (symbols : List String) :
    eval recorder (answer tape) (currentPrices symbols) ((w, log), n) =
      (.ok (readFrom tape n symbols),
        ((w, ((readFrom tape n symbols).map entry).reverse ++ log), n + symbols.length)) := by
  induction symbols generalizing log n with
  | nil => rfl
  | cons symbol symbols ih =>
      have hquote : eval recorder (answer tape) (AutoClose.getCurrentPrice symbol) ((w, log), n) =
          (.ok (tape n).price, ((w, entry (symbol, (tape n).price) :: log), n + 1)) :=
        (eval_perform _ _ _ _).trans rfl
      rw [currentPrices, eval_bind, eval_attempt, eval_bind, hquote]
      simp only [eval_pure, eval_bind, ih]
      have hlength : n + 1 + symbols.length = n + (symbols.length + 1) := by omega
      simp [readFrom, hlength]

theorem eval_getOpenPositions (now : ℚ) (symbol : String) :
    eval recorder (answer tape) (getOpenPositions now symbol) ((w, log), n) =
      (.ok ((TradeTracker.getPositions (some .open) symbol openLimit w.positions).map (withDerivedFields now)),
        ((w, log), n)) := by
  rw [getOpenPositions, AutoClose.getPositions, eval_bind, eval_perform]
  rfl

theorem eval_updatePositionPrices (x : Client) (tape : ℕ → Env) (w : World) (log : List Entry) (n : ℕ)
    (prices : List (String × ℚ)) :
    ∃ updated, eval recorder (answer tape) ((updatePositionPrices prices).interp x.perform) ((w, log), n) =
      (.ok updated, (({ w with positions := priceAll prices w.positions }, log), n)) := by
  obtain ⟨updated, hupdated⟩ := eval_updateOpenPositionPrices x tape w log n prices
  rw [eval_interp, updatePositionPrices, eval_attempt, eval_bind, hupdated]
  exact ⟨_, rfl⟩

def numbered {α : Type} (step : ℕ) : ℕ → List α → List (α × ℕ)
  | _, [] => []
  | n, a :: as => (a, n) :: numbered step (n + step) as

theorem numbered_map {α β : Type} (g : α → β) (step n : ℕ) (as : List α) :
    numbered step n (as.map g) = (numbered step n as).map (fun x => (g x.1, x.2)) := by
  induction as generalizing n with
  | nil => rfl
  | cons a as ih => simp [numbered, ih]

theorem numbered_map_fst {α : Type} (step n : ℕ) (as : List α) : (numbered step n as).map Prod.fst = as := by
  induction as generalizing n with
  | nil => rfl
  | cons a as ih => simp [numbered, ih]

/-- The rows a sweep tries to close, each with the number of its first price read. -/
def attempts (c : Criteria) (step n : ℕ) (ps : List OpenPosition) : List (Position × ℕ) :=
  numbered step n ((ps.filter (fun p => c.Met p.position.unrealizedPnlPercent p.daysOpen)).map OpenPosition.position)

/-- What a sweep leaves behind: the price reads of every attempt, and the rows closed whose
attempt has gone through. -/
structure Swept (x : Client) (tape : ℕ → Env) (paperTrading : Bool) (A : List (Position × ℕ)) (w w' : World)
    (log log' : List Entry) : Prop where
  reads : log' = ((A.flatMap (fun a => closingReads paperTrading tape a.1 a.2)).map entry).reverse ++ log
  closed : ∀ id, IsClosed id w'.positions ↔ IsClosed id w.positions ∨
    ∃ a ∈ A, a.1.id = id ∧ GoesThrough x paperTrading tape a.1 a.2

theorem closingReads_congr {p q : Position} (h : p.symbol = q.symbol) (paperTrading : Bool) (tape : ℕ → Env) (n : ℕ) :
    closingReads paperTrading tape p n = closingReads paperTrading tape q n := by
  rw [closingReads, closingReads, h]

theorem goesThrough_congr {p q : Position} (h : asCreated p = asCreated q) (x : Client) (paperTrading : Bool)
    (tape : ℕ → Env) (n : ℕ) : GoesThrough x paperTrading tape p n ↔ GoesThrough x paperTrading tape q n := by
  simp only [asCreated, Prod.mk.injEq, NewPosition.mk.injEq] at h
  simp [GoesThrough, h]

/-- New prices change neither what a closing reads nor what becomes of it. -/
theorem Swept.of_judged {paperTrading : Bool} {A : List (Position × ℕ)} {w w' : World} {log log' : List Entry}
    {prices : List (String × ℚ)}
    (h : Swept x tape paperTrading (A.map (fun a => (judged prices a.1, a.2))) w w' log log') :
    Swept x tape paperTrading A w w' log log' where
  reads := by
    have hreads : ∀ (a : Position × ℕ), closingReads paperTrading tape (judged prices a.1) a.2 =
        closingReads paperTrading tape a.1 a.2 := fun a =>
      closingReads_congr (judged_kept (g := Position.symbol) (fun _ _ => rfl) prices a.1) paperTrading tape a.2
    rw [h.reads, List.flatMap_map]
    simp only [hreads]
  closed id := by
    have hcreated := judged_kept (g := asCreated) (fun _ _ => rfl) prices
    rw [h.closed]
    refine or_congr_right ⟨?_, ?_⟩
    · rintro ⟨a, ha, rfl, hthrough⟩
      obtain ⟨b, hb, rfl⟩ := List.mem_map.1 ha
      exact ⟨b, hb, (congrArg Prod.fst (hcreated b.1)).symm, (goesThrough_congr (hcreated b.1) _ _ _ _).1 hthrough⟩
    · rintro ⟨b, hb, rfl, hthrough⟩
      exact ⟨_, List.mem_map_of_mem hb, congrArg Prod.fst (hcreated b.1),
        (goesThrough_congr (hcreated b.1) _ _ _ _).2 hthrough⟩

/-- A row other than the one closed stays as it is. -/
theorem mem_of_closing {G : Prop} [Decidable G] {p q : Position} {T T' : Positions}
    (h : if G then ∃ closing t, T' = TradeTracker.updateClosed p.id closing t T else T' = T)
    (hq : q ∈ T.rows) (hne : q.id ≠ p.id) : q ∈ T'.rows := by
  split at h
  next =>
    obtain ⟨closing, t, rfl⟩ := h
    exact mem_updateClosed_of_ne hq hne closing t
  next => exact h ▸ hq

theorem isClosed_of_closing {G : Prop} [Decidable G] {p : Position} {T T' : Positions} (hp : p ∈ T.rows)
    (h : if G then ∃ closing t, T' = TradeTracker.updateClosed p.id closing t T else T' = T) (id : String) :
    IsClosed id T' ↔ IsClosed id T ∨ (p.id = id ∧ G) := by
  split at h
  next hG =>
    obtain ⟨closing, t, rfl⟩ := h
    rw [isClosed_updateClosed hp, and_iff_left hG]
  next hG =>
    rw [h, or_iff_left fun hand => hG hand.2]

theorem eval_autoCloseEach (x : Client) (tape : ℕ → Env) (w : World) (log : List Entry) (n : ℕ) (paperTrading : Bool)
    (c : Criteria) {ps : List OpenPosition} (hopen : ∀ p ∈ ps, p.position ∈ w.positions.rows ∧ p.position.status = .open)
    (hnodup : (ps.map (fun p => p.position.id)).Nodup) :
    ∃ results w' log' n', eval recorder (answer tape) (autoCloseEach x ⟨paperTrading, true⟩ c ps) ((w, log), n) =
        (.ok results, ((w', log'), n')) ∧
      Swept x tape paperTrading (attempts c (readsPerClosing paperTrading) n ps) w w' log log' := by
  induction ps generalizing w log n with
  | nil => exact ⟨_, w, log, n, rfl, rfl, fun id => by simp [attempts, numbered]⟩
  | cons p ps ih =>
      obtain ⟨hp, hps⟩ := List.forall_mem_cons.1 hopen
      obtain ⟨hid, hnodup⟩ := List.nodup_cons.1 hnodup
      rw [autoCloseEach]
      cases hreason : c.closeReason p.position.unrealizedPnlPercent p.daysOpen with
      | none =>
          have hmet := (closeReason_eq_none _ _ _).1 hreason
          obtain ⟨results, w', log', n', hrun, hswept⟩ := ih w log n hps hnodup
          have hattempts : attempts c (readsPerClosing paperTrading) n (p :: ps) =
              attempts c (readsPerClosing paperTrading) n ps := by
            simp [attempts, hmet]
          exact ⟨results, w', log', n', hrun, hattempts ▸ hswept⟩
      | some reason =>
          have hmet : c.Met p.position.unrealizedPnlPercent p.daysOpen := by
            by_contra hmet
            rw [(closeReason_eq_none _ _ _).2 hmet] at hreason
            cases hreason
          have hattempts : attempts c (readsPerClosing paperTrading) n (p :: ps) =
              (p.position, n) :: attempts c (readsPerClosing paperTrading) (n + readsPerClosing paperTrading) ps := by
            simp [attempts, numbered, hmet]
          obtain ⟨result, w₁, hclose, hrows⟩ := eval_closePosition x tape log n paperTrading hp.1 hp.2
          have hps₁ : ∀ q ∈ ps, q.position ∈ w₁.positions.rows ∧ q.position.status = .open := by
            intro q hq
            have hne : q.position.id ≠ p.position.id := fun he => hid (List.mem_map.2 ⟨q, hq, he⟩)
            exact ⟨mem_of_closing hrows (hps q hq).1 hne, (hps q hq).2⟩
          obtain ⟨results, w', log', n', hrun, hreads, hclosed⟩ :=
            ih w₁ (((closingReads paperTrading tape p.position n).map entry).reverse ++ log)
              (n + readsPerClosing paperTrading) hps₁ hnodup
          refine ⟨(result, reason) :: results, w', log', n', ?_, ?_, fun id => ?_⟩
          · simp only [eval_bind, eval_interp, hclose, hrun, eval_pure]
          · rw [hreads, hattempts]
            simp
          · rw [hclosed, hattempts, isClosed_of_closing hp.1 hrows, or_assoc]
            simp only [List.mem_cons, exists_eq_or_imp]

end Calls

end Autr.Positions.Sweep
