import Autr.Async.Tape
import Autr.Services.Reconcile

namespace Autr.Services.NoticeFailure

open Autr.Async Autr.Infra Bybit TradeTracker Executor

inductive Request
  | call (call : Call)
  | reconcile (symbol : String)

/-- All that a request can read and write, its orders so far, and how many calls other
than notifications it has made. -/
abbrev State := (World × List (Σ op : Op, Except Exc op.Res)) × ℕ

def Silent : Op → Bool
  | .notify _ => false
  | _ => true

abbrev recorder (S : Setting) : Handler Op Op.Res Exc State (ℕ → Env) :=
  ((handler S).logged Op.isSpotOrder).taped Silent

/-- The answers of a run: the calls of the stores and the exchange are answered in turn,
and a notification takes its time and then returns or raises. -/
def reply (answers notices : ℕ → Env) (faults : ℕ → Fault) : Op → ℕ → Env
  | .notify _, n => { notices n with fault := faults n }
  | _, n => answers n

def Request.run (S : Setting) (f : Op → ℕ → Env) (s : State) : Request → State
  | .call c => (eval (recorder S) f c.prog s).2
  | .reconcile symbol => (eval (recorder S) f (Executor.reconcile S.bybit.minOrderSize symbol) s).2

/-- The tables, the processed marks and the orders. -/
structure View where
  positions : Positions
  trades : List Trade
  marks : String → Option Redis.Entry
  orders : List (Σ op : Op, Except Exc op.Res)

def view (s : State) : View :=
  ⟨s.1.1.positions, s.1.1.trades, fun sigId => s.1.1.redis (Redis.processedKey sigId), s.1.2⟩

def startOf (w : World) : State := ((w, []), 0)

/-- Whatever becomes of the notifications, the request leaves the same behind. -/
def Unaffected (S : Setting) (answers notices : ℕ → Env) (w : World) (r : Request) : Prop :=
  ∀ faults faults', view (r.run S (reply answers notices faults) (startOf w)) =
    view (r.run S (reply answers notices faults') (startOf w))

section Compare

variable {S : Setting} {answers notices : ℕ → Env} {faults faults' : ℕ → Fault}

theorem eval_silent {α : Type} (p : Svc α) (hp : p.Uses (fun op => Silent op = true)) (s : State) :
    eval (recorder S) (reply answers notices faults) p s = eval (recorder S) (reply answers notices faults') p s := by
  refine eval_congr_of_uses (fun op hop => ?_) p hp s
  cases op with
  | notify => cases hop
  | _ => rfl

theorem notify_sameEnd (notice : Notice) : SameEnd (recorder S) (reply answers notices faults)
    (reply answers notices faults') (notify notice) := by
  intro s
  obtain ⟨⟨w, log⟩, n⟩ := s
  rw [notify, eval_perform, eval_perform]
  cases hf : faults n <;> cases hf' : faults' n <;>
    simp [exec, reply, Fault.apply, Op.isSpotOrder, hf, hf']

theorem told_sameEnd {α : Type} (notice : Notice) (a : α) : SameEnd (recorder S) (reply answers notices faults)
    (reply answers notices faults') (do notify notice; return a) :=
  sameEnd_bind_pure (notify_sameEnd notice) (fun _ => a)

theorem silent_sameEnd {α β : Type} {p : Svc α} {q : α → Svc β} (hp : p.Uses (fun op => Silent op = true))
    (hq : ∀ a, SameEnd (recorder S) (reply answers notices faults) (reply answers notices faults') (q a)) :
    SameEnd (recorder S) (reply answers notices faults) (reply answers notices faults') (p >>= q) :=
  sameEnd_bind (eval_silent p hp) hq

theorem returning_silent {α β : Type} {p : Svc α} (hp : p.Uses (fun op => Silent op = true)) (b : β) :
    (p >>= fun _ => pure b : Svc β).Uses (fun op => Silent op = true) :=
  Prog.uses_bind hp (fun _ => trivial)

theorem isProcessed_silent (sigId : String) : (isProcessed sigId).Uses (fun op => Silent op = true) :=
  Prog.uses_bind (Prog.uses_perform rfl) (fun _ => trivial)

theorem silent_of_rows (op : Op) (h : Rows op) : Silent op = true := by
  cases op <;> first | exact h.elim | rfl

theorem closeAll_silent (L : List Position) (closePrice : ℚ) :
    (closeAll L closePrice).Uses (fun op => Silent op = true) :=
  (closeAll_rows closePrice L).mono silent_of_rows

theorem placeOrder_silent (symbol : String) (side : Side) (qty : Option ℚ) :
    (placeOrder symbol side qty).Uses (fun op => Silent op = true) :=
  placeOrder_uses (P := fun op => Silent op = true) rfl (fun _ => rfl) qty

theorem recordBuy_sameEnd (symbol strategy sigId : String) (closePrice filledQty : ℚ) (orderId : String) :
    SameEnd (recorder S) (reply answers notices faults) (reply answers notices faults')
      (recordBuy symbol strategy sigId closePrice filledQty orderId) := by
  refine silent_sameEnd (Prog.uses_perform rfl) (fun _ => ?_)
  refine silent_sameEnd (Prog.uses_attempt (Prog.uses_perform rfl) (fun _ => trivial)) (fun _ => ?_)
  exact silent_sameEnd (Prog.uses_perform rfl) (fun _ => told_sameEnd _ _)

theorem recordSell_sameEnd (symbol strategy sigId : String) (closePrice filledQty totalInvested : ℚ)
    (orderId : String) : SameEnd (recorder S) (reply answers notices faults) (reply answers notices faults')
      (recordSell symbol strategy sigId closePrice filledQty totalInvested orderId) := by
  refine silent_sameEnd (Prog.uses_perform rfl) (fun _ => ?_)
  refine silent_sameEnd (Prog.uses_attempt (Prog.uses_bind (Prog.uses_perform rfl)
    (fun L => closeAll_silent L closePrice)) (fun _ => trivial)) (fun _ => ?_)
  exact silent_sameEnd (Prog.uses_perform rfl) (fun _ => told_sameEnd _ _)

/-- In a section under the lock a notification comes last, after every write. -/
theorem body_sameEnd (c : Call) : SameEnd (recorder S) (reply answers notices faults)
    (reply answers notices faults') c.body := by
  cases c with
  | buy symbol strategy sigId closePrice =>
      refine silent_sameEnd (isProcessed_silent sigId) (fun processed => ?_)
      split
      · exact sameEnd_pure _
      refine silent_sameEnd (Prog.uses_perform rfl) (fun openPositions => ?_)
      split
      · exact sameEnd_pure _
      refine silent_sameEnd (Prog.uses_perform rfl) (fun safeQty => ?_)
      split
      · exact told_sameEnd _ _
      refine silent_sameEnd (placeOrder_silent symbol .buy _) (fun result => ?_)
      split
      · exact told_sameEnd _ _
      · exact recordBuy_sameEnd symbol strategy sigId closePrice _ _
  | sell symbol strategy sigId closePrice qty =>
      refine silent_sameEnd (isProcessed_silent sigId) (fun processed => ?_)
      split
      · exact sameEnd_pure _
      refine silent_sameEnd (Prog.uses_perform rfl) (fun openPositions => ?_)
      refine silent_sameEnd (placeOrder_silent symbol .sell qty) (fun result => ?_)
      split
      · exact told_sameEnd _ _
      · exact recordSell_sameEnd symbol strategy sigId closePrice _ _ _

theorem call_sameEnd (c : Call) : SameEnd (recorder S) (reply answers notices faults)
    (reply answers notices faults') c.prog := by
  rw [Call.prog_eq]
  refine silent_sameEnd (Prog.uses_perform rfl) (fun acquired => ?_)
  split
  · exact sameEnd_ensure (body_sameEnd c) (eval_silent _ (Prog.uses_perform rfl))
  · exact sameEnd_pure _

/-- A notice before a silent rest decides whether the rest happens at all. -/
theorem told_iff {α : Type} (notice : Notice) {q : Svc α} (hq : q.Uses (fun op => Silent op = true)) (w : World)
    (log : List (Σ op : Op, Except Exc op.Res)) (n : ℕ) :
    (∀ faults faults',
      view (eval (recorder S) (reply answers notices faults) (do notify notice; q) ((w, log), n)).2 =
        view (eval (recorder S) (reply answers notices faults') (do notify notice; q) ((w, log), n)).2) ↔
    view (eval (recorder S) (reply answers notices fun _ => .none) q ((later (notices n) w, log), n)).2 =
      view ((w, log), n) := by
  have hrun : ∀ faults, view (eval (recorder S) (reply answers notices faults) (do notify notice; q) ((w, log), n)).2 =
      if faults n = .none then
        view (eval (recorder S) (reply answers notices fun _ => .none) q ((later (notices n) w, log), n)).2
      else view ((w, log), n) := by
    intro faults
    have hrest : ∀ s, eval (recorder S) (reply answers notices fun _ => .none) q s =
        eval (recorder S) (reply answers notices faults) q s := eval_silent q hq
    rw [eval_bind, notify, eval_perform, hrest]
    cases hf : faults n <;> simp [exec, reply, Fault.apply, Op.isSpotOrder, Silent, hf, later, view]
  simp only [hrun]
  constructor
  · intro h
    simpa using h (fun _ => .none) (fun _ => .lost)
  · intro h faults faults'
    rw [h, ite_self, ite_self]

/-- How the closing of a row that is open ends, by which of its statements fail. -/
inductive CloseStep (answers : ℕ → Env) (p : Position) (closePrice : ℚ) (s s' : State)
    (r : Except Exc (Option Position)) : Prop
  | failed (fault : (answers s.2).fault ≠ .none ∨ (answers (s.2 + 1)).fault = .lost) (error : ∃ e, r = .error e)
      (same : view s' = view s)
  | cut (reads : (answers s.2).fault = .none) (writes : (answers (s.2 + 1)).fault ≠ .lost)
      (fault : (answers (s.2 + 1)).fault ≠ .none ∨ (answers (s.2 + 2)).fault ≠ .none) (error : ∃ e, r = .error e)
      (written : s'.1.1.positions =
        updateClosed p.id (p.closing closePrice none) (answers (s.2 + 1)).utc s.1.1.positions)
  | done (reads : (answers s.2).fault = .none) (writes : (answers (s.2 + 1)).fault = .none)
      (rereads : (answers (s.2 + 2)).fault = .none) (ok : ∃ a, r = .ok a) (count : s'.2 = s.2 + 3)
      (written : s'.1.1.positions =
        updateClosed p.id (p.closing closePrice none) (answers (s.2 + 1)).utc s.1.1.positions)

theorem closePosition_step (S : Setting) (answers notices : ℕ → Env) (faults : ℕ → Fault) {p : Position}
    {s : State} (hp : p ∈ s.1.1.positions.rows) (hopen : p.status = .open) (closePrice : ℚ) :
    CloseStep answers p closePrice s
      (eval (recorder S) (reply answers notices faults) (closePosition p.id closePrice) s).2
      (eval (recorder S) (reply answers notices faults) (closePosition p.id closePrice) s).1 := by
  obtain ⟨⟨w, log⟩, n⟩ := s
  have hlook : getPositionById p.id w.positions = some p := Store.lookup_eq_some_of_mem w.positions.nodup hp
  rw [closePosition]
  cases h₀ : (answers n).fault with
  | lost | late =>
      refine .failed (.inl (by simp [h₀])) ?_ ?_ <;> simp [exec, reply, Fault.apply, Op.isSpotOrder, view, h₀]
  | none =>
  cases h₁ : (answers (n + 1)).fault with
  | lost =>
      refine .failed (.inr h₁) ?_ ?_ <;>
        simp [exec, reply, Fault.apply, Silent, Op.isSpotOrder, view, hlook, hopen, h₀, h₁]
  | late =>
      refine .cut h₀ (by simp [h₁]) (.inl (by simp [h₁])) ?_ ?_ <;>
        simp [exec, reply, Fault.apply, Silent, Op.isSpotOrder, hlook, hopen, h₀, h₁]
  | none =>
  cases h₂ : (answers (n + 2)).fault with
  | lost | late =>
      refine .cut h₀ (by simp [h₁]) (.inr (by simp [h₂])) ?_ ?_ <;>
        simp [exec, reply, Fault.apply, Silent, Op.isSpotOrder, hlook, hopen, h₀, h₁, h₂]
  | none =>
      refine .done h₀ h₁ h₂ ?_ ?_ ?_ <;>
        simp [exec, reply, Fault.apply, Silent, Op.isSpotOrder, hlook, hopen, h₀, h₁, h₂]

/-- Rows that are there and open, each once. -/
structure Listed (L : List Position) (T : Positions) : Prop where
  mem : ∀ p ∈ L, p ∈ T.rows ∧ p.status = .open
  nodup : (L.map Position.id).Nodup

theorem Listed.tail {p : Position} {L : List Position} {T : Positions} (h : Listed (p :: L) T) (c : Closing) (t : ℚ) :
    Listed L (updateClosed p.id c t T) where
  mem q hq := by
    have hne : q.id ≠ p.id := by
      intro he
      exact (List.nodup_cons.1 h.nodup).1 (he ▸ List.mem_map_of_mem hq)
    refine ⟨mem_updateClosed_of_ne (h.mem q (List.mem_cons_of_mem _ hq)).1 hne c t, ?_⟩
    exact (h.mem q (List.mem_cons_of_mem _ hq)).2
  nodup := (List.nodup_cons.1 h.nodup).2

theorem closeAll_cons (p : Position) (L : List Position) (closePrice : ℚ) (f : Op → ℕ → Env) (s : State) :
    eval (recorder S) f (closeAll (p :: L) closePrice) s =
      match eval (recorder S) f (closePosition p.id closePrice) s with
      | (.ok _, s') => eval (recorder S) f (closeAll L closePrice) s'
      | (.error e, s') => (.error e, s') := by
  rw [closeAll, eval_forEach_cons, eval_bind]
  rcases eval (recorder S) f (closePosition p.id closePrice) s with ⟨_ | a, s'⟩ <;> rfl

/-- How the closing of rows that are open ends: each takes three calls. -/
inductive CloseAll (answers : ℕ → Env) (L : List Position) (s : State) (r : Except Exc Unit × State) : Prop
  | done (fault : ∀ i < 3 * L.length, (answers (s.2 + i)).fault = .none) (ok : r.1 = .ok ())
      (count : r.2.2 = s.2 + 3 * L.length)
      (keys : r.2.1.1.positions.rows.map Position.id = s.1.1.positions.rows.map Position.id)
  | failed (fault : ∃ i < 3 * L.length, (answers (s.2 + i)).fault ≠ .none) (error : ∃ e, r.1 = .error e)

theorem closeAll_run (S : Setting) (answers notices : ℕ → Env) (faults : ℕ → Fault) {L : List Position} {s : State}
    (hL : Listed L s.1.1.positions) (closePrice : ℚ) :
    CloseAll answers L s (eval (recorder S) (reply answers notices faults) (closeAll L closePrice) s) := by
  induction L generalizing s with
  | nil => exact .done (fun i hi => by simp at hi) rfl rfl rfl
  | cons p L ih =>
      rw [closeAll_cons]
      have hp := hL.mem p List.mem_cons_self
      have hstep := closePosition_step S answers notices faults hp.1 hp.2 closePrice
      generalize eval (recorder S) (reply answers notices faults) (closePosition p.id closePrice) s = x at hstep ⊢
      obtain ⟨r, s'⟩ := x
      dsimp only at hstep
      have hlen : 3 * (p :: L).length = 3 * L.length + 3 := by simp [Nat.mul_add]
      cases hstep with
      | failed fault error same =>
          obtain ⟨e, rfl⟩ := error
          refine .failed ?_ ⟨e, rfl⟩
          rcases fault with hread | hwrite
          · exact ⟨0, by omega, hread⟩
          · exact ⟨1, by omega, by simp [hwrite]⟩
      | cut reads writes fault error written =>
          obtain ⟨e, rfl⟩ := error
          refine .failed ?_ ⟨e, rfl⟩
          rcases fault with hwrite | hreread
          · exact ⟨1, by omega, hwrite⟩
          · exact ⟨2, by omega, hreread⟩
      | done reads writes rereads ok count written =>
          obtain ⟨a, rfl⟩ := ok
          dsimp only at count written ⊢
          have htail : Listed L s'.1.1.positions := by rw [written]; exact hL.tail _ _
          have hat : ∀ i, s'.2 + i = s.2 + (i + 3) := fun i => by omega
          cases ih htail with
          | done fault ok' count' keys =>
              refine .done (fun i hi => ?_) ok' (by rw [count', count]; omega) (keys.trans ?_)
              · match i with
                | 0 => exact reads
                | 1 => exact writes
                | 2 => exact rereads
                | i + 3 =>
                    rw [← hat]
                    exact fault i (by omega)
              · rw [written]
                exact ids_updateClosed _ _ _ _
          | failed fault error =>
              obtain ⟨i, hi, hfault⟩ := fault
              exact .failed ⟨i + 3, by omega, by rw [← hat]; exact hfault⟩ error

def ClosedRow (id : String) (T : Positions) : Prop := ∀ r ∈ T.rows, r.id = id → r.status = .closed

theorem closedRow_updateClosed {id id' : String} {T : Positions} (c : Closing) (t : ℚ)
    (h : id' = id ∨ ClosedRow id T) : ClosedRow id (updateClosed id' c t T) := by
  intro r hr hid
  obtain ⟨r', hr', rfl⟩ := List.mem_map.1 hr
  by_cases hr'' : r'.id = id'
  · rw [if_pos hr'']
    rfl
  · rw [if_neg hr''] at hid ⊢
    rcases h with rfl | h
    · exact absurd hid hr''
    · exact h r' hr' hid

theorem closeAll_closedRow {f : Op → ℕ → Env} {id : String} (L : List Position) (closePrice : ℚ) {s : State}
    (h : ClosedRow id s.1.1.positions) :
    ClosedRow id (eval (recorder S) f (closeAll L closePrice) s).2.1.1.positions := by
  refine eval_invariant (I := fun s : State => ClosedRow id s.1.1.positions) (fun op s hop hs => ?_) _
    (closeAll_rows closePrice L) h
  cases op with
  | selectPosition id' => exact Fault.apply_world (fun w => ClosedRow id w.positions) hs hs
  | updateClosed id' c =>
      exact Fault.apply_world (fun w => ClosedRow id w.positions) hs (closedRow_updateClosed c _ (.inr hs))
  | _ => exact hop.elim

/-- A closing fails on its first row, or closes that row for good. -/
theorem closeAll_first (S : Setting) (answers notices : ℕ → Env) (faults : ℕ → Fault) {p : Position}
    {L : List Position} {s : State} (hp : p ∈ s.1.1.positions.rows) (hopen : p.status = .open) (closePrice : ℚ) :
    ((answers s.2).fault ≠ .none ∨ (answers (s.2 + 1)).fault = .lost →
      view (eval (recorder S) (reply answers notices faults) (closeAll (p :: L) closePrice) s).2 = view s) ∧
    (¬ ((answers s.2).fault ≠ .none ∨ (answers (s.2 + 1)).fault = .lost) →
      ClosedRow p.id
        (eval (recorder S) (reply answers notices faults) (closeAll (p :: L) closePrice) s).2.1.1.positions) := by
  rw [closeAll_cons]
  have hstep := closePosition_step S answers notices faults hp hopen closePrice
  generalize eval (recorder S) (reply answers notices faults) (closePosition p.id closePrice) s = x at hstep ⊢
  obtain ⟨r, s'⟩ := x
  dsimp only at hstep
  cases hstep with
  | failed fault error same =>
      obtain ⟨e, rfl⟩ := error
      exact ⟨fun _ => same, fun h => absurd fault h⟩
  | cut reads writes fault error written =>
      obtain ⟨e, rfl⟩ := error
      refine ⟨fun h => absurd h (not_or.2 ⟨not_not.2 reads, writes⟩), fun _ => ?_⟩
      dsimp only
      rw [written]
      exact closedRow_updateClosed _ _ (.inl rfl)
  | done reads writes rereads ok count written =>
      obtain ⟨a, rfl⟩ := ok
      refine ⟨fun h => absurd h (not_or.2 ⟨not_not.2 reads, by simp [writes]⟩), fun _ => ?_⟩
      refine closeAll_closedRow L closePrice ?_
      rw [written]
      exact closedRow_updateClosed _ _ (.inl rfl)

/-- The first row is what tells: once it is written the table has changed for good. -/
theorem closeAll_kept_iff (S : Setting) (answers notices : ℕ → Env) (faults : ℕ → Fault) {p : Position}
    {L : List Position} {s : State} (hp : p ∈ s.1.1.positions.rows) (hopen : p.status = .open) (closePrice : ℚ) :
    view (eval (recorder S) (reply answers notices faults) (closeAll (p :: L) closePrice) s).2 = view s ↔
      (answers s.2).fault ≠ .none ∨ (answers (s.2 + 1)).fault = .lost := by
  obtain ⟨hkept, hclosed⟩ := closeAll_first S answers notices faults (L := L) hp hopen closePrice
  generalize eval (recorder S) (reply answers notices faults) (closeAll (p :: L) closePrice) s = x at hkept hclosed ⊢
  refine ⟨fun hview => ?_, hkept⟩
  by_contra hfirst
  have hpos : x.2.1.1.positions = s.1.1.positions := congrArg View.positions hview
  have hstatus := hclosed hfirst p (hpos ▸ hp) rfl
  rw [hopen] at hstatus
  cases hstatus

/-- An insert takes effect unless it is lost or its id is taken. -/
def Inserts (c : Env) (T : Positions) : Prop := c.fault ≠ .lost ∧ c.uuid ∉ T.rows.map Position.id

theorem insertPosition_kept_iff (S : Setting) (answers notices : ℕ → Env) (faults : ℕ → Fault) (p : NewPosition)
    (s : State) :
    view (eval (recorder S) (reply answers notices faults) (await (.insertPosition p)) s).2 = view s ↔
      ¬ Inserts (answers s.2) s.1.1.positions := by
  obtain ⟨⟨w, log⟩, n⟩ := s
  rw [eval_perform]
  cases hT : createPosition (answers n).uuid (answers n).utc p w.positions with
  | none =>
      refine iff_of_true (by simp [exec, reply, hT, Op.isSpotOrder, view]) (fun h => ?_)
      obtain ⟨T, hT', _⟩ := createPosition_fresh (answers n).utc p h.2
      cases hT.symm.trans hT'
  | some T =>
      obtain ⟨hfresh, hrows⟩ := createPosition_rows hT
      have hne : T ≠ w.positions := by
        intro he
        have hlen := congrArg List.length (he ▸ hrows)
        simp at hlen
      cases hf : (answers n).fault <;>
        simp [exec, reply, Fault.apply, hT, hf, Op.isSpotOrder, view, Inserts, hfresh, hne]

/-- What `reconcile` makes of an exception. -/
def caught : Except Exc Reconciled × State → Except Exc Reconciled × State
  | (.ok r, s) => (.ok r, s)
  | (.error e, s) => (.ok (.error e), s)

theorem caught_snd (x : Except Exc Reconciled × State) : (caught x).2 = x.2 := by
  rcases x with ⟨_ | _, _⟩ <;> rfl

/-- What `reconcile` knows when it comes to its decision: it has got that far and the
difference is more than dust. -/
def Decides (S : Setting) (answers : ℕ → Env) (minOrderSize : ℚ) (symbol : String) (w : World) : Prop :=
  (answers 1).fault = .none ∧
    ¬ |localQty (getPositions (some .open) symbol defaultLimit w.positions) -
      Reconcile.exchangeQty S (answers 0) symbol w| * (answers 2).price < minOrderSize

def decisionState (answers : ℕ → Env) (w : World) : State :=
  ((later (answers 2) (later (answers 1) (later (answers 0) w)), []), 3)

theorem reconcile_run (S : Setting) (answers notices : ℕ → Env) (faults : ℕ → Fault) (minOrderSize : ℚ)
    (symbol : String) (w : World) :
    let e := Reconcile.exchangeQty S (answers 0) symbol w
    let L := getPositions (some .open) symbol defaultLimit w.positions
    let x := eval (recorder S) (reply answers notices faults) (Executor.reconcile minOrderSize symbol) (startOf w)
    (Decides S answers minOrderSize symbol w →
      x = caught (eval (recorder S) (reply answers notices faults)
        (applyDecision minOrderSize symbol e L (answers 2).price) (decisionState answers w))) ∧
    (¬ Decides S answers minOrderSize symbol w → view x.2 = view (startOf w)) := by
  intro e L x
  let f := reply answers notices faults
  have hqty : eval (recorder S) f (getExchangeQty symbol) (startOf w) =
      (.ok e, ((later (answers 0) w, []), 1)) := by
    rw [getExchangeQty, eval_attempt, eval_bind, eval_perform]
    cases hf : (answers 0).fault <;>
      simp [f, e, startOf, exec, reply, Fault.apply, hf, Op.isSpotOrder, Silent, later, Reconcile.exchangeQty]
    rfl
  have hx : x = eval (recorder S) f (Executor.reconcile minOrderSize symbol) (startOf w) := rfl
  rw [Executor.reconcile, eval_attempt, eval_bind, hqty] at hx
  dsimp only at hx
  cases hf : (answers 1).fault with
  | lost | late =>
      refine ⟨fun h => absurd (hf.symm.trans h.1) Fault.noConfusion, fun _ => ?_⟩
      rw [hx]
      simp [f, openPositionsOf, exec, reply, Fault.apply, hf, Op.isSpotOrder, view, startOf, later]
  | none =>
      have hopen : eval (recorder S) f (openPositionsOf symbol) ((later (answers 0) w, []), 1) =
          (.ok L, ((later (answers 1) (later (answers 0) w), []), 2)) := by
        rw [openPositionsOf, eval_perform]
        simp [f, L, exec, reply, Fault.apply, hf, Op.isSpotOrder, Silent, later]
      have hprice : eval (recorder S) f (currentPriceOf symbol) ((later (answers 1) (later (answers 0) w), []), 2) =
          (.ok (answers 2).price, decisionState answers w) := by
        rw [currentPriceOf, eval_perform]
        rfl
      rw [eval_bind, hopen] at hx
      dsimp only at hx
      rw [eval_bind, hprice] at hx
      dsimp only at hx
      by_cases hd : |localQty L - e| * (answers 2).price < minOrderSize
      · refine ⟨fun h => absurd hd h.2, fun _ => ?_⟩
        rw [hx, if_pos hd]
        rfl
      · refine ⟨fun _ => ?_, fun h => absurd ⟨hf, hd⟩ h⟩
        rw [hx, if_neg hd]
        change _ = caught (eval (recorder S) f _ _)
        rcases eval (recorder S) f (applyDecision minOrderSize symbol e L (answers 2).price) _ with ⟨_ | _, _⟩ <;> rfl

theorem listed_open (symbol : String) (T : Positions) :
    Listed (getPositions (some .open) symbol defaultLimit T) T where
  mem _ hp := mem_getPositions_open symbol hp
  nodup := getPositions_open_nodup symbol defaultLimit T

/-- The conditions on the answers under which a request has nothing left to write once it
has sent its notice, or cannot write it anyway. -/
def Request.Harmless (S : Setting) (answers : ℕ → Env) (w : World) : Request → Prop
  | .call _ => True
  | .reconcile symbol =>
      let e := Reconcile.exchangeQty S (answers 0) symbol w
      let L := getPositions (some .open) symbol defaultLimit w.positions
      let price := (answers 2).price
      (answers 1).fault = .none → ¬ |localQty L - e| * price < S.bybit.minOrderSize →
        match ReconcileDomain.reconcile (localQty L) e with
        | .noop => True
        | .closeOrphanLocal => (answers 3).fault ≠ .none ∨ (answers 4).fault = .lost
        | .openMissingLocal => e * price < S.bybit.minOrderSize ∨ ¬ Inserts (answers 3) w.positions
        | .adjustQty => e * price < S.bybit.minOrderSize ∨ (∃ i < 3 * L.length, (answers (3 + i)).fault ≠ .none) ∨
            ¬ Inserts (answers (3 + 3 * L.length)) w.positions

/-- A notice before closing the listed rows matters unless the first of them stays as it is. -/
theorem orphans_told_iff (S : Setting) (answers notices : ℕ → Env) {L : List Position} {w : World}
    (hL : Listed L w.positions) (hne : L ≠ []) (notice : Notice) (result : Reconciled) (closePrice : ℚ)
    (log : List (Σ op : Op, Except Exc op.Res)) (n : ℕ) :
    (∀ faults faults', view (eval (recorder S) (reply answers notices faults)
        (do notify notice; closeAll L closePrice; return result) ((w, log), n)).2 =
      view (eval (recorder S) (reply answers notices faults')
        (do notify notice; closeAll L closePrice; return result) ((w, log), n)).2) ↔
      (answers n).fault ≠ .none ∨ (answers (n + 1)).fault = .lost := by
  refine (told_iff _ (returning_silent (closeAll_silent L closePrice) _) w log n).trans ?_
  rw [eval_bind_pure_snd]
  cases L with
  | nil => exact absurd rfl hne
  | cons p L =>
      have hp := hL.mem p List.mem_cons_self
      exact closeAll_kept_iff S answers notices (fun _ => .none) (s := ((later (notices n) w, log), n)) hp.1 hp.2 closePrice

/-- A notice before an insert matters unless the insert has no effect. -/
theorem insert_told_iff (S : Setting) (answers notices : ℕ → Env) (notice : Notice) (p : NewPosition)
    (result : Reconciled) (w : World) (log : List (Σ op : Op, Except Exc op.Res)) (n : ℕ) :
    (∀ faults faults', view (eval (recorder S) (reply answers notices faults)
        (do notify notice; await (.insertPosition p); return result) ((w, log), n)).2 =
      view (eval (recorder S) (reply answers notices faults')
        (do notify notice; await (.insertPosition p); return result) ((w, log), n)).2) ↔
      ¬ Inserts (answers n) w.positions := by
  refine (told_iff _ (returning_silent (Prog.uses_perform rfl) _) w log n).trans ?_
  rw [eval_bind_pure_snd]
  exact insertPosition_kept_iff S answers notices (fun _ => .none) p ((later (notices n) w, log), n)

theorem decision_unaffected_iff (S : Setting) (answers notices : ℕ → Env) (minOrderSize : ℚ) (symbol : String)
    (e price : ℚ) (w w₀ : World) (hw : w.positions = w₀.positions) :
    let L := getPositions (some .open) symbol defaultLimit w₀.positions
    (∀ faults faults', view (eval (recorder S) (reply answers notices faults)
        (applyDecision minOrderSize symbol e L price) ((w, []), 3)).2 =
      view (eval (recorder S) (reply answers notices faults')
        (applyDecision minOrderSize symbol e L price) ((w, []), 3)).2) ↔
      match ReconcileDomain.reconcile (localQty L) e with
      | .noop => True
      | .closeOrphanLocal => (answers 3).fault ≠ .none ∨ (answers 4).fault = .lost
      | .openMissingLocal => e * price < minOrderSize ∨ ¬ Inserts (answers 3) w₀.positions
      | .adjustQty => e * price < minOrderSize ∨ (∃ i < 3 * L.length, (answers (3 + i)).fault ≠ .none) ∨
          ¬ Inserts (answers (3 + 3 * L.length)) w₀.positions := by
  intro L
  have hlisted : Listed L w.positions := hw ▸ listed_open symbol w₀.positions
  rw [applyDecision]
  cases hdec : ReconcileDomain.reconcile (localQty L) e with
  | noop => exact iff_of_true (fun _ _ => rfl) trivial
  | closeOrphanLocal =>
      have hne : L ≠ [] := by
        intro hnil
        have hpos := (Reconcile.decision_closeOrphanLocal hdec).1
        rw [hnil] at hpos
        exact lt_irrefl 0 hpos
      exact orphans_told_iff S answers notices hlisted hne _ _ price [] 3
  | openMissingLocal =>
      dsimp only
      split
      · next hdust => exact iff_of_true (fun _ _ => rfl) (.inl hdust)
      · next hdust =>
          rw [or_iff_right hdust, ← hw]
          exact insert_told_iff S answers notices _ _ _ w [] 3
  | adjustQty =>
      have hclose : ∀ faults, eval (recorder S) (reply answers notices faults) (closeAll L price) ((w, []), 3) =
          eval (recorder S) (reply answers notices fun _ => .none) (closeAll L price) ((w, []), 3) := fun faults =>
        eval_silent _ (closeAll_silent L price) _
      have hrun := closeAll_run S answers notices (fun _ => .none) (s := ((w, []), 3)) hlisted price
      simp only [eval_bind, hclose]
      generalize eval (recorder S) (reply answers notices fun _ => .none) (closeAll L price) ((w, []), 3) = x at hrun ⊢
      obtain ⟨r, ⟨w', log⟩, n⟩ := x
      cases hrun with
      | failed fault error =>
          obtain ⟨e', he'⟩ := error
          dsimp only at he'
          subst he'
          exact iff_of_true (fun _ _ => rfl) (.inr (.inl fault))
      | done fault ok count keys =>
          dsimp only at ok count keys
          subst ok count
          dsimp only
          split
          · next hdust => exact iff_of_true (fun faults faults' => congrArg view (told_sameEnd _ _ _)) (.inl hdust)
          · next hdust =>
              have hfaultless : ¬ ∃ i < 3 * L.length, (answers (3 + i)).fault ≠ .none := by
                rintro ⟨i, hi, h⟩
                exact h (fault i hi)
              rw [or_iff_right hdust, or_iff_right hfaultless]
              refine (insert_told_iff S answers notices _ _ _ w' log _).trans ?_
              rw [Inserts, Inserts, keys, hw]

end Compare

/-- A request leaves the same behind whatever becomes of its notifications exactly when
nothing is left to write after them. Trades are always written before the notice. -/
theorem unaffected_iff (S : Setting) (answers notices : ℕ → Env) (w : World) (r : Request) :
    Unaffected S answers notices w r ↔ r.Harmless S answers w := by
  cases r with
  | call c => exact iff_of_true (fun faults faults' => congrArg view (call_sameEnd c (startOf w))) trivial
  | reconcile symbol =>
      have hrun := fun faults => reconcile_run S answers notices faults S.bybit.minOrderSize symbol w
      by_cases hdecides : Decides S answers S.bybit.minOrderSize symbol w
      · have hview : ∀ faults, view ((Request.reconcile symbol).run S (reply answers notices faults) (startOf w)) =
            view (eval (recorder S) (reply answers notices faults)
              (applyDecision S.bybit.minOrderSize symbol (Reconcile.exchangeQty S (answers 0) symbol w)
                (getPositions (some .open) symbol defaultLimit w.positions) (answers 2).price)
              (decisionState answers w)).2 := by
          intro faults
          rw [Request.run, (hrun faults).1 hdecides, caught_snd]
        simp only [Unaffected, hview]
        refine (decision_unaffected_iff S answers notices S.bybit.minOrderSize symbol _ _
          (later (answers 2) (later (answers 1) (later (answers 0) w))) w rfl).trans ?_
        exact ⟨fun h _ _ => h, fun h => h hdecides.1 hdecides.2⟩
      · have hview : ∀ faults, view ((Request.reconcile symbol).run S (reply answers notices faults) (startOf w)) =
            view (startOf w) := fun faults => (hrun faults).2 hdecides
        simp only [Unaffected, hview]
        exact iff_of_true (fun _ _ => trivial) (fun h₁ h₂ => absurd ⟨h₁, h₂⟩ hdecides)

def oneCoin : World := { World.empty with wallet := fun coin => if coin = "BTC" then 1 else 0 }

/-- A holding without a row: the notice raises, and the row is not created. -/
theorem raised_notice_drops_row : ¬ ∀ (S : Setting) (answers notices : ℕ → Env) (w : World) (r : Request),
    Unaffected S answers notices w r := by
  intro h
  have hview := h defaults (fun _ => Env.trading) (fun _ => Env.plain) oneCoin (.reconcile "BTCUSDT")
    (fun _ => .none) (fun _ => .lost)
  have hrows := congrArg (fun v : View => v.positions.rows.length) hview
  revert hrows
  decide +kernel

end Autr.Services.NoticeFailure
