import Autr.Async.Protocol
import Autr.Positions.PositionService

namespace Autr.Positions.DoubleClose

open Autr.Async Autr.Infra TradeTracker TradeDb PositionService

/-- How far a closing has come. It has failed when a call after its order has raised. -/
inductive Stage
  | reading
  | ordered
  | recorded
  | rechecked
  | closed
  | failed
  deriving DecidableEq

def Stage.onError : Stage → Stage
  | .ordered | .recorded | .rechecked => .failed
  | q => q

def closing (id : String) : Protocol Op Op.Res String Stage where
  start := .reading
  next q _ op r := match op, r with
    | .placeOrder _, .ok (.accepted _) => .ordered
    | .placeOrder _, _ => q
    | .insertTrade _, .ok _ => .recorded
    | .selectPosition _, .ok row =>
        if q = .recorded then if row.any (fun p => p.status = .open) then .rechecked else .closed else q
    | .updateClosed _ _, .ok _ => .closed
    | _, .ok _ => q
    | _, .error _ => q.onError
  allows q op := match op with
    | .selectPosition id' => id' = id ∧ (q = .reading ∨ q = .recorded ∨ q = .closed)
    | .getCurrentPrice _ => q = .reading
    | .placeOrder _ => q = .reading
    | .insertTrade _ => q = .ordered
    | .updateClosed id' _ => id' = id ∧ q = .rechecked
    | _ => False
  final q := q = .reading ∨ q = .closed ∨ q = .failed

theorem recordClose_follows (id : String) (p : Position) (closePrice : ℚ) (orderId : Option String) :
    (closing id).Follows .ordered (recordClose id p closePrice orderId) := by
  rw [Protocol.Follows, recordClose, addTrade, Prog.wp_bind, Prog.wp_perform]
  refine ⟨rfl, fun t r => ?_⟩
  rcases r with e | trade
  · exact .inr (.inr rfl)
  rw [Prog.out_ok, Prog.wp_bind, TradeDb.closePosition, closeVia, Prog.wp_bind, TradeDb.getPositionById,
    Prog.wp_perform]
  refine ⟨⟨rfl, .inr (.inl rfl)⟩, fun t r => ?_⟩
  rcases r with e | _ | row
  · exact .inr (.inr rfl)
  · exact .inr (.inl rfl)
  have hnext : (closing id).next .recorded t (.selectPosition id) (.ok (some row)) =
      if row.status = .open then .rechecked else .closed := by
    simp [closing]
  change Prog.wp _ _ _ ((closing id).next .recorded t (.selectPosition id) (.ok (some row)))
  rw [hnext]
  by_cases hopen : row.status = .open
  · simp only [hopen, ne_eq, not_true_eq_false, if_false, if_true, Prog.wp_bind, Prog.wp_perform]
    refine ⟨⟨rfl, rfl⟩, fun t r => ?_⟩
    rcases r with e | _
    · exact .inr (.inr rfl)
    · refine ⟨⟨rfl, .inr (.inr rfl)⟩, fun t r => ?_⟩
      rcases r with e | _ <;> exact .inr (.inl rfl)
  · simp only [hopen, ne_eq, not_false_eq_true, if_true, if_false]
    exact .inr (.inl rfl)

theorem closeFound_follows (id : String) (p : Position) (closePrice : Option ℚ) :
    (closing id).Follows .reading (closeFound live id p closePrice) := by
  have horder : ∀ price, (closing id).Follows .reading
      (afterOrder ⟨p.symbol, exitSide p.positionType, p.quantity⟩
        "Exchange close order failed; local position unchanged." (recordClose id p price)) := by
    intro price
    rw [Protocol.Follows, afterOrder, Prog.wp_bind, Prog.wp_perform]
    refine ⟨rfl, fun t r => ?_⟩
    rcases r with e | orderId | error
    · exact .inl rfl
    · exact recordClose_follows id p price orderId
    · exact .inl rfl
  cases closePrice with
  | some price => exact horder price
  | none =>
      rw [Protocol.Follows, closeFound, Prog.wp_bind]
      refine ⟨rfl, fun t r => ?_⟩
      cases r with
      | error e => exact .inl rfl
      | ok price => exact horder price

theorem closePosition_follows (id : String) (closePrice : Option ℚ) :
    (closing id).Follows .reading (closePosition live id closePrice) := by
  refine Prog.wp_attempt_of (closing id).spec_mono ?_ (fun e q hq => hq)
  rw [TradeDb.getPositionById, Prog.wp_bind, Prog.wp_perform]
  refine ⟨⟨rfl, .inl rfl⟩, fun t r => ?_⟩
  rcases r with e | _ | p
  · exact .inl rfl
  · exact .inl rfl
  · rw [Prog.out_ok]
    dsimp only
    split
    · exact .inl rfl
    · exact closeFound_follows id p closePrice

variable {ι : Type} [DecidableEq ι]

abbrev Calls (ι : Type) := Conf ι Op Op.Res String World Result

/-- Closings of one position by a service that trades live, each with a price or without. -/
def begin (id : String) (prices : ι → Option ℚ) (w : World) : Calls ι :=
  start (fun i => closePosition live id (prices i)) w

def stage (id : String) (x : Calls ι) (i : ι) : Stage := phase (closing id) i x.trace

/-- The closings the exchange has accepted and the database does not know of yet. -/
def UnderWay (id : String) (x : Calls ι) (i : ι) : Prop :=
  stage id x i = .ordered ∨ stage id x i = .recorded ∨ stage id x i = .rechecked

instance (id : String) (x : Calls ι) : DecidablePred (UnderWay id x) :=
  fun i => inferInstanceAs (Decidable (stage id x i = .ordered ∨ stage id x i = .recorded ∨ stage id x i = .rechecked))

def IsOpen (id : String) (T : Positions) : Prop := ∃ r ∈ T.rows, r.id = id ∧ r.status = .open

instance (id : String) (T : Positions) : Decidable (IsOpen id T) :=
  inferInstanceAs (Decidable (∃ r ∈ T.rows, r.id = id ∧ r.status = .open))

/-- An accepted order finds the position open and no other closing under way. -/
def Exclusive (id : String) (x : Calls ι) (i : ι) (c : Env) : Prop :=
  ∀ op ∈ (x.task i).next, op.isOrder = true → c.fault = .none → c.reply.isAccepted = true →
    IsOpen id x.world.positions ∧ ∀ j, ¬ UnderWay id x j

def DbSucceeds (x : Calls ι) (i : ι) (c : Env) : Prop :=
  ∀ op ∈ (x.task i).next, op.isStatement = true → c.fault = .none

instance (x : Calls ι) (i : ι) (c : Env) : Decidable (DbSucceeds x i c) :=
  inferInstanceAs (Decidable (∀ op ∈ (x.task i).next, op.isStatement = true → c.fault = .none))

/-- Either nothing has been accepted, or one closing has been, and it is still under way
or the position is closed. -/
inductive Books (id : String) (w : World) (x : Calls ι) : Prop
  | untouched (stages : ∀ i, stage id x i = .reading) (orders : x.world.orders = w.orders)
      (trades : x.world.trades = w.trades)
  | ordered (i : ι) (others : ∀ j, j ≠ i → stage id x j = .reading) (reached : stage id x i = .ordered)
      (order : Order) (orders : x.world.orders = w.orders ++ [order]) (trades : x.world.trades = w.trades)
  | traded (i : ι) (others : ∀ j, j ≠ i → stage id x j = .reading)
      (reached : stage id x i = .recorded ∨ stage id x i = .rechecked ∨
        (stage id x i = .closed ∧ ¬ IsOpen id x.world.positions))
      (order : Order) (orders : x.world.orders = w.orders ++ [order])
      (trade : TradeRow) (trades : x.world.trades = w.trades ++ [trade])

/-- What one call of a closing does, seen from its own stage. -/
inductive ClosingStep (id : String) (op : Op) (c : Env) (w w' : World) : Stage → Stage → Prop
  | quiet (q : Stage) (same : w' = w) : ClosingStep id op c w w' q q
  | ordered (order : Order) (placed : op.isOrder = true) (accepted : c.fault = .none ∧ c.reply.isAccepted = true)
      (sent : w' = { w with orders := w.orders ++ [order] }) : ClosingStep id op c w w' .reading .ordered
  | recorded (trade : TradeRow) (stored : w' = { w with trades := w.trades ++ [trade], lastTradeId := trade.id }) :
      ClosingStep id op c w w' .ordered .recorded
  | rechecked (same : w' = w) : ClosingStep id op c w w' .recorded .rechecked
  | refused (same : w' = w) (gone : ¬ IsOpen id w.positions) : ClosingStep id op c w w' .recorded .closed
  | closed (closing : Closing) (written : w' = { w with positions := updateClosed id closing c.utc w.positions }) :
      ClosingStep id op c w w' .rechecked .closed

theorem not_isOpen_updateClosed (id : String) (c : TradeTracker.Closing) (t : ℚ) (T : Positions) :
    ¬ IsOpen id (updateClosed id c t T) := by
  rintro ⟨r, hr, hid, hopen⟩
  obtain ⟨r', _, rfl⟩ := List.mem_map.1 hr
  by_cases h : r'.id = id
  · rw [if_pos h] at hopen
    cases hopen
  · rw [if_neg h] at hid
    exact h hid

theorem isOpen_iff {id : String} {T : Positions} :
    IsOpen id T ↔ (TradeTracker.getPositionById id T).any (fun p => p.status = .open) = true := by
  constructor
  · rintro ⟨r, hr, rfl, hopen⟩
    rw [TradeTracker.getPositionById, Store.lookup_eq_some_of_mem T.nodup hr]
    simpa using hopen
  · intro h
    cases hp : TradeTracker.getPositionById id T with
    | none => simp [hp] at h
    | some p =>
        rw [hp] at h
        exact ⟨p, (Store.mem_of_lookup hp).1, (Store.mem_of_lookup hp).2, by simpa using h⟩

theorem closing_step {id : String} {q : Stage} {op : Op} {c : Env} {w : World} (ha : (closing id).allows q op)
    (hf : op.isStatement = true → c.fault = .none) (t : ℚ) :
    ClosingStep id op c w (exec op c w).2 q ((closing id).next q t op (exec op c w).1) := by
  cases op with
  | selectPosition id' =>
      obtain ⟨rfl, hq⟩ := ha
      have hnone := hf rfl
      have he : exec (.selectPosition id') c w = (.ok (TradeTracker.getPositionById id' w.positions), w) := by
        simp only [exec, hnone, Fault.apply]
      rw [he]
      rcases hq with rfl | rfl | rfl
      · exact .quiet _ rfl
      · change ClosingStep id' (.selectPosition id') c w w .recorded (if (TradeTracker.getPositionById id' w.positions).any
          (fun p => p.status = .open) = true then .rechecked else .closed)
        by_cases hopen : IsOpen id' w.positions
        · rw [if_pos (isOpen_iff.1 hopen)]
          exact .rechecked rfl
        · rw [if_neg (fun h => hopen (isOpen_iff.2 h))]
          exact .refused rfl hopen
      · exact .quiet _ rfl
  | getCurrentPrice symbol =>
      cases ha
      simp only [exec]
      cases c.fault <;> exact .quiet _ rfl
  | placeOrder order =>
      cases ha
      simp only [exec]
      cases hc : c.fault with
      | lost text | late text => exact .quiet _ rfl
      | none =>
          cases hr : c.reply with
          | rejected error => exact .quiet _ rfl
          | accepted orderId => exact .ordered order rfl ⟨hc, by rw [hr]; rfl⟩ rfl
  | insertTrade trade =>
      cases ha
      have hnone := hf rfl
      simp only [exec, hnone, Fault.apply]
      exact .recorded ⟨w.lastTradeId + 1, trade, 0⟩ rfl
  | updateClosed id' c' =>
      obtain ⟨rfl, rfl⟩ := ha
      have hnone := hf rfl
      simp only [exec, hnone, Fault.apply]
      exact .closed c' rfl
  | insertPosition | selectOpen | updatePrice => exact ha.elim

variable {id : String} {w : World} {x : Calls ι}

theorem call_step (hd : Disciplined (fun _ => closing id) x) {i : ι} {c : Env} (hf : DbSucceeds x i c) :
    step handler x (i, c) = x ∨ ∃ op ∈ (x.task i).next,
      ClosingStep id op c x.world (step handler x (i, c)).world (stage id x i) (stage id (step handler x (i, c)) i) ∧
      ∀ j, j ≠ i → stage id (step handler x (i, c)) j = stage id x j := by
  rcases step_cases handler x i c with ⟨_, hs⟩ | ⟨op, k, hp, hs⟩
  · exact .inl hs
  have hnext : op ∈ (x.task i).next := by rw [hp]; rfl
  refine .inr ⟨op, hnext, ?_, fun j hj => ?_⟩
  · rw [hs, stage, stage, phase_answered]
    exact closing_step (hd.allows hp) (hf op hnext) _
  · rw [hs]
    exact phase_answered_ne (closing id) x hj _ op _ _ _

/-- A call that has only read goes on reading, unless its order is accepted. -/
theorem ClosingStep.of_reading {op : Op} {c : Env} {w w' : World} {q q' : Stage}
    (h : ClosingStep id op c w w' q q') (hq : q = .reading) : (q' = .reading ∧ w' = w) ∨
      ∃ order, q' = .ordered ∧ op.isOrder = true ∧ (c.fault = .none ∧ c.reply.isAccepted = true) ∧
        w' = { w with orders := w.orders ++ [order] } := by
  subst hq
  cases h with
  | quiet _ same => exact .inl ⟨rfl, same⟩
  | ordered order placed accepted sent => exact .inr ⟨order, rfl, placed, accepted, sent⟩

/-- A call that has written its trade goes on until the position is closed. -/
theorem ClosingStep.of_traded {op : Op} {c : Env} {w w' : World} {q q' : Stage} (h : ClosingStep id op c w w' q q')
    (hq : q = .recorded ∨ q = .rechecked ∨ (q = .closed ∧ ¬ IsOpen id w.positions)) :
    w'.orders = w.orders ∧ w'.trades = w.trades ∧
      (q' = .recorded ∨ q' = .rechecked ∨ (q' = .closed ∧ ¬ IsOpen id w'.positions)) := by
  rcases hq with rfl | rfl | ⟨rfl, hclosed⟩
  · cases h with
    | quiet _ same => subst same; exact ⟨rfl, rfl, .inl rfl⟩
    | rechecked same => subst same; exact ⟨rfl, rfl, .inr (.inl rfl)⟩
    | refused same gone => subst same; exact ⟨rfl, rfl, .inr (.inr ⟨rfl, gone⟩)⟩
  · cases h with
    | quiet _ same => subst same; exact ⟨rfl, rfl, .inr (.inl rfl)⟩
    | closed closing written =>
        subst written
        exact ⟨rfl, rfl, .inr (.inr ⟨rfl, not_isOpen_updateClosed id closing c.utc w.positions⟩)⟩
  · cases h with
    | quiet _ same => subst same; exact ⟨rfl, rfl, .inr (.inr ⟨rfl, hclosed⟩)⟩

/-- What the step of another call than the accepted one leaves as it is. -/
theorem others_step {x' : Calls ι} {i j : ι} {c : Env} {op : Op} (hop : op ∈ (x.task j).next) (hji : j ≠ i)
    (hstep : ClosingStep id op c x.world x'.world (stage id x j) (stage id x' j))
    (hkept : ∀ m, m ≠ j → stage id x' m = stage id x m) (he : Exclusive id x j c)
    (hothers : ∀ m, m ≠ i → stage id x m = .reading)
    (hbusy : UnderWay id x i ∨ ¬ IsOpen id x.world.positions) :
    x'.world = x.world ∧ stage id x' i = stage id x i ∧ ∀ m, m ≠ i → stage id x' m = .reading := by
  rcases hstep.of_reading (hothers j hji) with ⟨hq, hw⟩ | ⟨order, _, hplaced, ⟨hfault, hreply⟩, _⟩
  · refine ⟨hw, hkept i (Ne.symm hji), fun m hm => ?_⟩
    by_cases hmj : m = j
    · rw [hmj, hq]
    · rw [hkept m hmj, hothers m hm]
  · obtain ⟨hopen, hnone⟩ := he op hop hplaced hfault hreply
    rcases hbusy with hunder | hclosed
    · exact absurd hunder (hnone i)
    · exact absurd hopen hclosed

theorem books_step (hd : Disciplined (fun _ => closing id) x) (hb : Books id w x) {i : ι} {c : Env}
    (he : Exclusive id x i c) (hf : DbSucceeds x i c) : Books id w (step handler x (i, c)) := by
  rcases call_step hd hf with hs | ⟨op, hop, hstep, hkept⟩
  · rw [hs]; exact hb
  generalize step handler x (i, c) = x' at hstep hkept ⊢
  cases hb with
  | untouched stages orders trades =>
      rcases hstep.of_reading (stages i) with ⟨hq, hw⟩ | ⟨order, hq, _, _, hw⟩
      · refine .untouched (fun j => ?_) (by rw [hw]; exact orders) (by rw [hw]; exact trades)
        by_cases hj : j = i
        · rw [hj, hq]
        · rw [hkept j hj, stages j]
      · refine .ordered i (fun j hj => (hkept j hj).trans (stages j)) hq order ?_ (by rw [hw]; exact trades)
        rw [hw, ← orders]
  | ordered i₀ others reached order orders trades =>
      by_cases hi : i = i₀
      · subst hi
        have hothers : ∀ j, j ≠ i → stage id x' j = .reading := fun j hj => (hkept j hj).trans (others j hj)
        rw [reached] at hstep
        generalize hq : stage id x' i = q' at hstep
        cases hstep with
        | quiet _ same => exact .ordered i hothers hq order (by rw [same]; exact orders) (by rw [same]; exact trades)
        | recorded trade stored =>
            exact .traded i hothers (.inl hq) order (by rw [stored]; exact orders) trade (by rw [stored, ← trades])
      · obtain ⟨hw, hself, hothers⟩ := others_step hop hi hstep hkept he others (.inl (.inl reached))
        exact .ordered i₀ hothers (hself.trans reached) order (by rw [hw]; exact orders) (by rw [hw]; exact trades)
  | traded i₀ others reached order orders trade trades =>
      by_cases hi : i = i₀
      · subst hi
        have hothers : ∀ j, j ≠ i → stage id x' j = .reading := fun j hj => (hkept j hj).trans (others j hj)
        obtain ⟨hsent, hwritten, hreached⟩ := hstep.of_traded reached
        exact .traded i hothers hreached order (by rw [hsent]; exact orders) trade (by rw [hwritten]; exact trades)
      · have hbusy : UnderWay id x i₀ ∨ ¬ IsOpen id x.world.positions := by
          rcases reached with reached | reached | ⟨_, hclosed⟩
          · exact .inl (.inr (.inl reached))
          · exact .inl (.inr (.inr reached))
          · exact .inr hclosed
        obtain ⟨hw, hself, hothers⟩ := others_step hop hi hstep hkept he others hbusy
        exact .traded i₀ hothers (by rw [hself, hw]; exact reached) order (by rw [hw]; exact orders) trade
          (by rw [hw]; exact trades)

/-- What the surroundings decide about one call, and how many orders the exchange accepts for
it beyond the one the client reports: the client sends an order again when the answer to it
is lost. -/
structure Delivery where
  env : Env
  unreported : ℕ

def unreportedOrders (op : Op) (n : ℕ) : List Order :=
  match op with
  | .placeOrder order => List.replicate n order
  | _ => []

def deliver (op : Op) (d : Delivery) (w : World) : Except String (Op.Res op) × World :=
  let r := exec op d.env w
  (r.1, { r.2 with orders := r.2.orders ++ unreportedOrders op d.unreported })

def delivery : Handler Op Op.Res String World Delivery where
  exec := deliver
  clock _ := 0

/-- No order of the call is accepted without its client telling. -/
def Reported (x : Calls ι) (i : ι) (d : Delivery) : Prop :=
  ∀ op ∈ (x.task i).next, op.isOrder = true → d.unreported = 0

/-- Whether a call has read the position yet, and found it open. -/
inductive Found
  | unread
  | held
  | gone
  deriving DecidableEq

def reader : Protocol Op Op.Res String Found where
  start := .unread
  next q _ op r := match q, op, r with
    | .unread, .selectPosition _, .ok row => if row.any (fun p => p.status = .open) then .held else .gone
    | _, _, _ => q
  allows q op := op.isOrder = true → q = .held
  final _ := True

def found (x : Calls ι) (i : ι) : Found := phase reader i x.trace

def firstRead (id : String) (x : Calls ι) (i : ι) : Bool :=
  found x i = .unread ∧ (x.task i).next = some (.selectPosition id)

def accepts (x : Calls ι) (i : ι) (d : Delivery) : Bool :=
  (x.task i).next.any Op.isOrder ∧ d.env.fault = .none ∧ d.env.reply.isAccepted = true

def noneUnderWay (id : String) (x : Calls ι) : Bool := ∀ e ∈ x.trace, ¬ UnderWay id x e.task

/-- The calls, and which of them have read the position while no order was under way and
have had no order accepted since, their own or another's. -/
structure Watched (ι : Type) where
  calls : Calls ι
  fresh : ι → Bool

def watch (id : String) (y : Watched ι) (l : ι × Delivery) : Watched ι where
  calls := step delivery y.calls l
  fresh :=
    if accepts y.calls l.1 l.2 then fun _ => false
    else if firstRead id y.calls l.1 then Function.update y.fresh l.1 (noneUnderWay id y.calls)
    else y.fresh

/-- Between a call's read of the position and its accepted order no other order is accepted,
and at the read none stood before its closing UPDATE. -/
def Timely (y : Watched ι) (l : ι × Delivery) : Prop := accepts y.calls l.1 l.2 = true → y.fresh l.1 = true

instance (x : Calls ι) (i : ι) (d : Delivery) : Decidable (Reported x i d) :=
  inferInstanceAs (Decidable (∀ op ∈ (x.task i).next, op.isOrder = true → d.unreported = 0))

instance (y : Watched ι) (l : ι × Delivery) : Decidable (Timely y l) := inferInstanceAs (Decidable (_ → _))

theorem step_delivery {x : Calls ι} {i : ι} {d : Delivery} (h : Reported x i d) :
    step delivery x (i, d) = step handler x (i, d.env) := by
  rcases step_cases handler x i d.env with ⟨hnext, hs⟩ | ⟨op, k, hp, hs⟩
  · rw [hs]
    exact (step_cases delivery x i d).resolve_right (fun ⟨op, k, hp, _⟩ => by rw [hp] at hnext; cases hnext) |>.2
  · have hnone : unreportedOrders op d.unreported = [] := by
      cases op with
      | placeOrder order => rw [h _ (by rw [hp]; rfl) rfl]; rfl
      | _ => rfl
    have hexec : deliver op d x.world = exec op d.env x.world := by
      rw [deliver, hnone, List.append_nil]
    simp only [step, hp, delivery, handler, hexec]

theorem closePosition_reads (id : String) (closePrice : Option ℚ) :
    reader.Follows .unread (closePosition live id closePrice) := by
  refine Prog.wp_attempt_of reader.spec_mono (I := fun _ => True) ?_ (fun _ _ _ => trivial)
  rw [TradeDb.getPositionById, Prog.wp_bind, Prog.wp_perform]
  refine ⟨fun h => (Bool.false_ne_true h).elim, fun t r => ?_⟩
  rcases r with e | _ | p
  · trivial
  · trivial
  rw [Prog.out_ok]
  dsimp only
  split
  · trivial
  · next hopen =>
      have hheld : reader.next .unread t (.selectPosition id) (.ok (some p)) = .held := by
        simp [reader, not_not.1 hopen]
      rw [hheld]
      exact Prog.wp_mono reader.spec_mono _ (fun _ _ _ => trivial) _
        (reader.wp_of_uses (fun op _ => ⟨fun _ => rfl, fun _ _ => rfl⟩) _ (Prog.uses_true _))

theorem not_underWay_of_noneUnderWay (h : noneUnderWay id x = true) (j : ι) : ¬ UnderWay id x j := by
  by_cases hj : ∃ e ∈ x.trace, e.task = j
  · obtain ⟨e, he, rfl⟩ := hj
    exact of_decide_eq_true h e he
  · have hstage : stage id x j = .reading := phase_of_absent (closing id) (fun e he hej => hj ⟨e, he, hej⟩)
    rw [UnderWay, hstage]
    simp

/-- While no call stands between its order and its UPDATE, only an accepted order changes
anything. -/
theorem quiet_step (hd : Disciplined (fun _ => closing id) x) {i : ι} {d : Delivery}
    (hf : DbSucceeds x i d.env) (hquiet : ∀ j, ¬ UnderWay id x j) (hno : accepts x i d = false) :
    (step handler x (i, d.env)).world = x.world ∧ ∀ j, stage id (step handler x (i, d.env)) j = stage id x j := by
  rcases call_step hd hf with hs | ⟨op, hop, hstep, hkept⟩
  · rw [hs]
    exact ⟨rfl, fun _ => rfl⟩
  have hi := hquiet i
  have hself : (step handler x (i, d.env)).world = x.world ∧
      stage id (step handler x (i, d.env)) i = stage id x i := by
    generalize stage id (step handler x (i, d.env)) i = q' at hstep ⊢
    rw [UnderWay] at hi
    generalize stage id x i = q at hstep hi ⊢
    cases hstep with
    | quiet _ same => exact ⟨same, rfl⟩
    | ordered order placed accepted sent =>
        refine absurd (decide_eq_true ?_) (ne_true_of_eq_false hno)
        exact ⟨by rw [Option.mem_def.1 hop]; exact placed, accepted⟩
    | recorded | rechecked | refused | closed => simp at hi
  refine ⟨hself.1, fun j => ?_⟩
  by_cases hj : j = i
  · rw [hj, hself.2]
  · exact hkept j hj

/-- A call comes to hold the position by its first read alone, which finds it open. -/
theorem found_step (hd : Disciplined (fun _ => closing id) x) {i j : ι} {c : Env} (hf : DbSucceeds x i c)
    (h : found (step handler x (i, c)) j = .held) :
    found x j = .held ∨ j = i ∧ firstRead id x i = true ∧ IsOpen id x.world.positions := by
  rcases step_cases handler x i c with ⟨_, hs⟩ | ⟨op, k, hp, hs⟩
  · rw [hs] at h
    exact .inl h
  rw [hs, found] at h
  by_cases hj : j = i
  swap
  · rw [phase_answered_ne _ _ hj] at h
    exact .inl h
  subst hj
  rw [phase_answered] at h
  have hnext : (x.task j).next = some op := by rw [hp]; rfl
  cases hq : found x j with
  | held => exact .inl rfl
  | gone =>
      rw [found] at hq
      rw [hq] at h
      cases h
  | unread =>
      rw [← found, hq] at h
      cases op with
      | selectPosition id' =>
          obtain ⟨rfl, -⟩ := hd.allows hp
          have hnone := hf _ hnext rfl
          simp only [handler_exec, exec, hnone, Fault.apply] at h
          change (if (TradeTracker.getPositionById id' x.world.positions).any (fun p => p.status = .open) = true
            then Found.held else .gone) = .held at h
          refine .inr ⟨rfl, decide_eq_true ⟨hq, hnext⟩, isOpen_iff.2 ?_⟩
          split at h
          · assumption
          · cases h
      | _ => cases h

def Fresh (id : String) (y : Watched ι) : Prop :=
  ∀ i, y.fresh i = true → found y.calls i = .held →
    IsOpen id y.calls.world.positions ∧ ∀ j, ¬ UnderWay id y.calls j

theorem fresh_watch {y : Watched ι} (hd : Disciplined (fun _ => closing id) y.calls) (hy : Fresh id y) {i : ι}
    {d : Delivery} (hf : DbSucceeds y.calls i d.env) (hr : Reported y.calls i d) : Fresh id (watch id y (i, d)) := by
  intro j hfresh hheld
  rw [watch] at hfresh hheld ⊢
  dsimp only at hfresh hheld ⊢
  rw [step_delivery hr] at hheld ⊢
  cases hno : accepts y.calls i d with
  | true =>
      rw [hno] at hfresh
      cases hfresh
  | false =>
      rw [hno, if_neg Bool.false_ne_true] at hfresh
      have hbefore : IsOpen id y.calls.world.positions ∧ ∀ j, ¬ UnderWay id y.calls j := by
        rcases found_step hd hf hheld with hold | ⟨rfl, hread, hopen⟩
        · by_cases hread : firstRead id y.calls i = true ∧ j = i
          · obtain ⟨hread, rfl⟩ := hread
            have hunread := (of_decide_eq_true hread).1
            rw [hold] at hunread
            cases hunread
          · refine hy j ?_ hold
            split at hfresh
            · next hfirst =>
                rwa [Function.update_of_ne (fun hj => hread ⟨hfirst, hj⟩)] at hfresh
            · exact hfresh
        · rw [if_pos hread, Function.update_self] at hfresh
          exact ⟨hopen, not_underWay_of_noneUnderWay hfresh⟩
      obtain ⟨hworld, hstages⟩ := quiet_step hd hf hbefore.2 hno
      refine ⟨by rw [hworld]; exact hbefore.1, fun m => ?_⟩
      rw [UnderWay, hstages m]
      exact hbefore.2 m

theorem exclusive_of_timely {y : Watched ι} (hd : Disciplined (fun _ => reader) y.calls) (hy : Fresh id y) {i : ι}
    {d : Delivery} (ht : Timely y (i, d)) : Exclusive id y.calls i d.env := by
  intro op hop hplaced hfault hreply
  have haccepts : accepts y.calls i d = true :=
    decide_eq_true ⟨by rw [Option.mem_def.1 hop]; exact hplaced, hfault, hreply⟩
  exact hy i (ht haccepts) (hd.obeys i op hop hplaced)

theorem along_watched {A : Calls ι → ι → Delivery → Prop} {y : Watched ι} {ls : List (ι × Delivery)} :
    AlongRun (watch id) (fun y l => A y.calls l.1 l.2) y ls ↔ Along delivery A y.calls ls :=
  alongRun_map (f := Watched.calls) (A := fun x (l : ι × Delivery) => A x l.1 l.2) (fun _ _ => rfl)

/-- What the calls keep to as long as every accepted order is reported and timely. -/
structure Orderly (id : String) (w : World) (y : Watched ι) : Prop where
  closes : Disciplined (fun _ => closing id) y.calls
  reads : Disciplined (fun _ => reader) y.calls
  fresh : Fresh id y
  books : Books id w y.calls

theorem orderly_watch {y : Watched ι} (hy : Orderly id w y) {l : ι × Delivery} (hf : DbSucceeds y.calls l.1 l.2.env)
    (hr : Reported y.calls l.1 l.2) (ht : Timely y l) : Orderly id w (watch id y l) where
  closes := disciplined_step _ _ hy.closes l.1 l.2
  reads := disciplined_step _ _ hy.reads l.1 l.2
  fresh := fresh_watch hy.closes hy.fresh hf hr
  books := by
    rw [watch, step_delivery hr]
    exact books_step hy.closes hy.books (exclusive_of_timely hy.reads hy.fresh ht) hf

/-- Where every accepted order is reported, and none is accepted between the read of a call
and its own order or stands before its closing UPDATE at that read, there is at most one
accepted order and one exit trade. -/
theorem closed_at_most_once (id : String) (prices : ι → Option ℚ) (w : World) (ls : List (ι × Delivery))
    (hdb : Along delivery (fun x i d => DbSucceeds x i d.env) (begin id prices w) ls)
    (hreported : Along delivery Reported (begin id prices w) ls)
    (htimely : AlongRun (watch id) Timely ⟨begin id prices w, fun _ => false⟩ ls) :
    Always delivery (fun x => x.world.orders.length ≤ w.orders.length + 1 ∧
      x.world.trades.length ≤ w.trades.length + 1) (begin id prices w) ls := by
  have hstart : Orderly id w ⟨begin id prices w, fun _ => false⟩ :=
    ⟨disciplined_start (P := fun _ => closing id) (fun i => closePosition_follows id (prices i)) w,
      disciplined_start (P := fun _ => reader) (fun i => closePosition_reads id (prices i)) w,
      fun _ h => (Bool.false_ne_true h).elim, .untouched (fun _ => rfl) rfl rfl⟩
  have hrun := alwaysRun_of_step (P := Orderly id w)
    (fun y l hy hl => orderly_watch hy hl.1 hl.2.1 hl.2.2) hstart
    ((along_watched.2 hdb).and ((along_watched.2 hreported).and htimely))
  refine (alwaysRun_map (f := Watched.calls) (fun _ _ => rfl)).1 (hrun.mono (fun y hy => ?_))
  cases hy.books with
  | untouched _ orders trades => simp [orders, trades]
  | ordered _ _ _ order orders trades => simp [orders, trades]
  | traded _ _ _ order orders trade trades => simp [orders, trades]

def bought : NewPosition := ⟨"BTCUSDT", "long", 30000, 1 / 2, 15000, some 1⟩

def oneOpen : World := ⟨[], 1, ⟨[bought.row "a" 1], by simp⟩, []⟩

def filled : Delivery := ⟨⟨.none, "", 5, 31000, .accepted (some "order-1")⟩, 0⟩

def refused : Delivery := ⟨⟨.none, "", 5, 31000, .rejected (some "Insufficient balance.")⟩, 0⟩

/-- Two callers, one with a price and one without. -/
def twoPrices : Bool → Option ℚ
  | false => some 31000
  | true => none

def calls (is : List Bool) : List (Bool × Delivery) := is.map (fun i => (i, filled))

/-- One caller closes the position after both have read it, and the order of the other is refused. -/
theorem closed_at_most_once_twice :
    Always delivery (fun x => x.world.orders.length ≤ 1 ∧ x.world.trades.length ≤ 1) (begin "a" twoPrices oneOpen)
      (calls [true, false, false, false, false, false, false, true] ++ [(true, refused)]) :=
  closed_at_most_once "a" twoPrices oneOpen _ (by decide +kernel) (by decide +kernel) (by decide +kernel)

/-- Both callers read the position as open before either closes it. -/
theorem closed_twice : ¬ ∀ (id : String) (prices : Bool → Option ℚ) (w : World) (ls : List (Bool × Delivery)),
    IsOpen id w.positions → Along delivery (fun x i d => DbSucceeds x i d.env) (begin id prices w) ls →
    Along delivery Reported (begin id prices w) ls →
    (runs delivery (begin id prices w) ls).world.orders.length ≤ w.orders.length + 1 ∧
      (runs delivery (begin id prices w) ls).world.trades.length ≤ w.trades.length + 1 := by
  intro h
  have hrun := h "a" twoPrices oneOpen (calls [false, true, false, true, true, false, true]) (by decide +kernel)
    (by decide +kernel) (by decide +kernel)
  revert hrun
  decide +kernel

end Autr.Positions.DoubleClose
