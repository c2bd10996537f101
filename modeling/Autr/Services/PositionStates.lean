import Autr.Domain.StateMachine
import Autr.Services.RowExclusion

namespace Autr.Services.PositionStates

open Autr.Async Autr.Domain Autr.Infra Bybit Redis TradeTracker Executor SymbolLock

/-- Where a call stands: outside the lock; inside it; inside after listing no open row, as
a buy; past the sizing of its buy; or inside after listing the rows to sell. -/
inductive Stage
  | out
  | locked
  | clear
  | entering
  | exiting
  deriving DecidableEq

/-- The section has nothing left to do but to record and to leave. -/
def Stage.settle (q : Stage) : Stage := if q = .out then .out else .locked

def Stage.list (side : Side) (rows : List Position) (q : Stage) : Stage :=
  if q = .out then .out
  else match side with
    | .sell => .exiting
    | .buy => if rows.isEmpty then .clear else .locked

def stageProtocol (symbol : String) (side : Side) : Protocol Op Op.Res Exc Stage where
  start := .out
  next q _ op r := match op, r with
    | .acquireLock key _, .ok true => if key = executorLock symbol then .locked else q
    | .releaseLock key, _ => if key = executorLock symbol then .out else q
    | .selectPositions _ _ _, .ok rows => q.list side rows
    | .selectPositions _ _ _, .error _ => q.settle
    | .calculateSafeOrderSize _ .buy, .ok (some _) => if q = .clear then .entering else q
    | .submitOrder _ _ _, .ok (.success _ _) => q
    | .submitOrder _ _ _, _ => q.settle
    | .insertTrade _, .error _ => q.settle
    | .insertPosition _, _ => q.settle
    | .set _ _ _, _ => q.settle
    | _, _ => q
  allows q op := match op with
    | .selectPositions status s limit => status = some .open ∧ s = symbol ∧ limit = defaultLimit
    | .submitOrder _ .buy _ => q = .entering
    | .insertPosition p => q = .entering ∧ p.symbol = symbol
    | .updateClosed _ _ => q = .exiting
    | _ => True
  final _ := True

/-- The calls a section may make at every stage. -/
def Anytime (symbol : String) : Op → Prop
  | .selectPositions status s limit => status = some .open ∧ s = symbol ∧ limit = defaultLimit
  | .submitOrder _ .buy _ | .insertPosition _ | .updateClosed _ _ => False
  | _ => True

section Follows

variable {symbol : String} {side : Side}

theorem wp_of_anytime {α : Type} {p : Svc α} (hp : p.Uses (Anytime symbol)) (q : Stage) :
    p.wp (stageProtocol symbol side).spec (fun _ _ => True) q := by
  refine Prog.wp_of_uses (Protocol.spec_mono _) (fun op q hop _ => ⟨?_, fun _ _ => trivial⟩) p hp q trivial
  cases op with
  | insertPosition | updateClosed => exact hop.elim
  | submitOrder s d qty =>
      cases d with
      | buy => exact hop.elim
      | sell => trivial
  | selectPositions => exact hop
  | _ => trivial

theorem notify_anytime {α : Type} (notice : Notice) (a : α) :
    (do notify notice; return a : Svc α).Uses (Anytime symbol) :=
  Prog.uses_bind (Prog.uses_perform trivial) (fun _ => trivial)

/-- Rows are closed and read without leaving the stage. -/
theorem wp_of_rows {α : Type} {p : Svc α} (hp : p.Uses Rows) :
    p.wp (stageProtocol symbol side).spec (fun _ q => q = .exiting) .exiting := by
  refine Protocol.wp_of_uses _ (fun op hop => ?_) p hp
  cases op with
  | selectPosition id => exact ⟨trivial, fun _ _ => rfl⟩
  | updateClosed id closing => exact ⟨rfl, fun _ _ => rfl⟩
  | _ => exact hop.elim

variable {strategy sigId : String} {closePrice : ℚ}

theorem recordBuy_stage (filled : ℚ) (orderId : String) :
    (recordBuy symbol strategy sigId closePrice filled orderId).wp (stageProtocol symbol .buy).spec
      (fun _ _ => True) .entering := by
  rw [recordBuy, Prog.wp_bind, Prog.wp_perform]
  refine ⟨trivial, fun t r => ?_⟩
  rcases r with e | u
  · trivial
  rw [Prog.out_ok, Prog.wp_bind, Prog.wp_attempt, Prog.wp_perform]
  refine ⟨⟨rfl, rfl⟩, fun t r => ?_⟩
  have hrest : ∀ q, (do
      markProcessed sigId processedTtl
      notify (.bought symbol strategy filled closePrice)
      return .success filled closePrice orderId none : Svc Outcome).wp (stageProtocol symbol .buy).spec
        (fun _ _ => True) q :=
    wp_of_anytime (Prog.uses_bind (Prog.uses_perform trivial) (fun _ => notify_anytime _ _))
  rcases r with e | u <;> exact hrest _

theorem buySection_stage : (buySection symbol strategy sigId closePrice).wp (stageProtocol symbol .buy).spec
    (fun _ _ => True) .locked := by
  rw [buySection, isProcessed, Prog.wp_bind, Prog.wp_bind, Prog.wp_perform]
  refine ⟨trivial, fun t r => ?_⟩
  rcases r with e | value
  · trivial
  rw [Prog.out_ok, Prog.wp_pure, Prog.out_ok]
  split
  · trivial
  rw [openPositionsOf, Prog.wp_bind, Prog.wp_perform]
  refine ⟨⟨rfl, rfl, rfl⟩, fun t r => ?_⟩
  rcases r with e | L
  · trivial
  dsimp only [Prog.out_ok]
  split
  · trivial
  next hopen =>
  obtain rfl : L = [] := by simpa using hopen
  rw [Prog.wp_bind, Prog.wp_perform]
  refine ⟨trivial, fun t r => ?_⟩
  rcases r with e | (_ | safeQty)
  · trivial
  · exact wp_of_anytime (notify_anytime _ _) _
  dsimp only [Prog.out_ok]
  rw [Executor.placeOrder, Prog.wp_bind, Prog.wp_perform]
  refine ⟨rfl, fun t r => ?_⟩
  rcases r with e | (⟨orderId, filled⟩ | error)
  · trivial
  · exact recordBuy_stage _ orderId
  · exact wp_of_anytime (notify_anytime _ _) _

theorem recordSell_stage (filled totalInvested : ℚ) (orderId : String) :
    (recordSell symbol strategy sigId closePrice filled totalInvested orderId).wp (stageProtocol symbol .sell).spec
      (fun _ _ => True) .exiting := by
  rw [recordSell, Prog.wp_bind, Prog.wp_perform]
  refine ⟨trivial, fun t r => ?_⟩
  rcases r with e | u
  · trivial
  rw [Prog.out_ok]
  have hrest : ∀ q, (do
      markProcessed sigId processedTtl
      notify (.sold symbol strategy filled closePrice (filled * closePrice - totalInvested)
        (pnlPercent (filled * closePrice - totalInvested) totalInvested))
      return .success filled closePrice orderId (some (filled * closePrice - totalInvested,
        pnlPercent (filled * closePrice - totalInvested) totalInvested)) : Svc Outcome).wp
        (stageProtocol symbol .sell).spec (fun _ _ => True) q :=
    wp_of_anytime (Prog.uses_bind (Prog.uses_perform trivial) (fun _ => notify_anytime _ _))
  refine Prog.wp_bind_of (Protocol.spec_mono _) (I := fun _ => True) ?_ (fun _ q _ => hrest q)
  refine Prog.wp_attempt_of (Protocol.spec_mono _) (I := fun _ => True) ?_ (fun _ _ _ => trivial)
  rw [openPositionsOf, Prog.wp_bind, Prog.wp_perform]
  refine ⟨⟨rfl, rfl, rfl⟩, fun t r => ?_⟩
  rcases r with e | L
  · trivial
  · exact Prog.wp_mono (Protocol.spec_mono _) _ (fun _ _ _ => trivial) _ (wp_of_rows (closeAll_rows closePrice L))

/-- An accepted sell leaves its call where it was. -/
theorem placeOrder_stage (qty : Option ℚ) :
    (Executor.placeOrder symbol .sell qty).wp (stageProtocol symbol .sell).spec
      (fun r q => ∀ orderId filled, r = .ok (.success orderId filled) → q = .exiting) .exiting := by
  have hsubmit : ∀ size, (await (.submitOrder symbol .sell size) : Svc OrderResult).wp
      (stageProtocol symbol .sell).spec
      (fun r q => ∀ orderId filled, r = .ok (.success orderId filled) → q = .exiting) .exiting := by
    intro size
    rw [Prog.wp_perform]
    refine ⟨trivial, fun t r => ?_⟩
    rcases r with e | (⟨orderId, filled⟩ | error)
    · exact fun _ _ h => by cases h
    · exact fun _ _ _ => rfl
    · exact fun _ _ h => by cases h
  cases qty with
  | some size => exact hsubmit size
  | none =>
      rw [Executor.placeOrder, Prog.wp_bind, Prog.wp_perform]
      refine ⟨trivial, fun t r => ?_⟩
      rcases r with e | (_ | size)
      · exact fun _ _ h => by cases h
      · exact fun _ _ h => by cases h
      · exact hsubmit size

theorem sellSection_stage (qty : Option ℚ) :
    (sellSection symbol strategy sigId closePrice qty).wp (stageProtocol symbol .sell).spec
      (fun _ _ => True) .locked := by
  rw [sellSection, isProcessed, Prog.wp_bind, Prog.wp_bind, Prog.wp_perform]
  refine ⟨trivial, fun t r => ?_⟩
  rcases r with e | value
  · trivial
  rw [Prog.out_ok, Prog.wp_pure, Prog.out_ok]
  split
  · trivial
  rw [openPositionsOf, Prog.wp_bind, Prog.wp_perform]
  refine ⟨⟨rfl, rfl, rfl⟩, fun t r => ?_⟩
  rcases r with e | L
  · trivial
  dsimp only [Prog.out_ok]
  rw [Prog.wp_bind]
  refine Prog.wp_mono (Protocol.spec_mono _) _ (fun r q hq => ?_) _ (placeOrder_stage qty)
  rcases r with e | (⟨orderId, filled⟩ | error)
  · trivial
  · rw [hq orderId filled rfl]
    exact recordSell_stage _ _ orderId
  · exact wp_of_anytime (notify_anytime _ _) q

theorem body_stage (call : Call) (hsymbol : call.symbol = symbol) :
    call.body.wp (stageProtocol symbol call.side).spec (fun _ _ => True) .locked := by
  subst hsymbol
  cases call with
  | buy symbol strategy sigId closePrice => exact buySection_stage
  | sell symbol strategy sigId closePrice qty => exact sellSection_stage qty

theorem call_stage (call : Call) (hsymbol : call.symbol = symbol) :
    (stageProtocol symbol call.side).Follows .out call.prog := by
  rw [Call.prog_eq, Protocol.Follows, withLock, Prog.wp_bind, Prog.wp_perform]
  refine ⟨trivial, fun t r => ?_⟩
  rcases r with e | _ | _
  · trivial
  · trivial
  simp only [Prog.out_ok, if_true, Prog.wp_ensure, stageProtocol, hsymbol]
  refine Prog.wp_mono (stageProtocol symbol call.side).spec_mono _ (fun r q _ => ?_) _ (body_stage call hsymbol)
  rw [Prog.wp_perform]
  refine ⟨trivial, fun t' r' => ?_⟩
  rcases r' with e | u <;> trivial

end Follows

/-- Once a buy has listed no open row there is none. -/
def Cleared (q : Stage) (rows : List Position) : Prop := q = .clear ∨ q = .entering → rows = []

/-- What the stage of the only call inside and the open rows amount to. -/
def Stage.view (q : Stage) (rows : List Position) : PositionState :=
  if q = .entering then .entering
  else if rows.isEmpty then .none
  else if q = .exiting then .exiting
  else .open

def Moves (current nxt : PositionState) : Prop := nxt = current ∨ current.canTransition nxt = true

@[simp] theorem settle_eq_out {q : Stage} : q.settle = .out ↔ q = .out := by
  cases q <;> decide

@[simp] theorem list_eq_out {side : Side} {rows : List Position} {q : Stage} :
    q.list side rows = .out ↔ q = .out := by
  unfold Stage.list
  split
  · next h => simp [h]
  · next h =>
      cases side with
      | buy => by_cases hrows : rows.isEmpty <;> simp [h, hrows]
      | sell => simp [h]

theorem cleared_settle (q : Stage) (rows : List Position) : Cleared q.settle rows := by
  rintro (h | h) <;> cases q <;> cases h

theorem cleared_list {side : Side} {q : Stage} {listed rows : List Position} (h : listed = [] → rows = []) :
    Cleared (q.list side listed) rows := by
  intro hq
  unfold Stage.list at hq
  split at hq
  · rcases hq with hq | hq <;> cases hq
  · cases side with
    | sell => rcases hq with hq | hq <;> cases hq
    | buy =>
        dsimp only at hq
        split at hq
        · next hl => exact h (List.isEmpty_iff.1 hl)
        · rcases hq with hq | hq <;> cases hq

instance (current nxt : PositionState) : Decidable (Moves current nxt) :=
  inferInstanceAs (Decidable (_ ∨ _))

theorem view_nil (q : Stage) : q.view [] = if q = .entering then .entering else .none := rfl

theorem view_open {q : Stage} {rows : List Position} (h : Cleared q rows) (hrows : rows ≠ []) :
    q.view rows = if q = .exiting then .exiting else .open := by
  have hq : q ≠ .entering := fun he => hrows (h (.inr he))
  rw [Stage.view, if_neg hq, if_neg (by simpa using hrows)]

/-- While the rows stay the machine can follow every change of the stage. -/
theorem moves_of_rows {q q' : Stage} {rows : List Position} (h : Cleared q rows) (h' : Cleared q' rows) :
    Moves (q.view rows) (q'.view rows) := by
  by_cases hrows : rows = []
  · rw [hrows, view_nil, view_nil]
    split <;> split <;> decide
  · rw [view_open h hrows, view_open h' hrows]
    split <;> split <;> decide

section World

variable {S : Setting} {symbol : String} {side : Side} {op : Op} {c : Env} {w : World} {q : Stage}

theorem cleared_next (t : ℚ) (hallows : (stageProtocol symbol side).allows q op)
    (h : Cleared q (openRows symbol w.positions)) :
    Cleared ((stageProtocol symbol side).next q t op (exec S op c w).1)
      (openRows symbol (exec S op c w).2.positions) := by
  cases op with
  | selectPositions status s limit =>
      obtain ⟨rfl, rfl, rfl⟩ := hallows
      rw [RowExclusion.exec_positions rfl]
      cases hf : c.fault with
      | lost | late =>
          simp only [exec, hf, Fault.apply]
          exact cleared_settle q _
      | none =>
          simp only [exec, hf, Fault.apply]
          refine cleared_list (fun hl => ?_)
          rw [getPositions_open] at hl
          exact (Store.newest_eq_nil Position.openTime (by decide)).1 hl
  | insertPosition p => exact cleared_settle q _
  | updateClosed id closing =>
      have hq : q = .exiting := hallows
      subst hq
      rintro (hq | hq) <;> cases hq
  | calculateSafeOrderSize s d =>
      rw [RowExclusion.exec_positions rfl]
      cases d with
      | sell => exact h
      | buy =>
          rcases (exec S (.calculateSafeOrderSize s .buy) c w).1 with e | _ | size
          · exact h
          · exact h
          · simp only [stageProtocol]
            split
            · next hq => exact fun _ => h (.inl hq)
            · exact h
  | submitOrder s d qty =>
      rw [RowExclusion.exec_positions rfl]
      rcases (exec S (.submitOrder s d qty) c w).1 with e | (⟨orderId, filled⟩ | error)
      · exact cleared_settle q _
      · exact h
      · exact cleared_settle q _
  | insertTrade trade =>
      rw [RowExclusion.exec_positions rfl]
      rcases (exec S (.insertTrade trade) c w).1 with e | u
      · exact cleared_settle q _
      · exact h
  | set key value ttl =>
      rw [RowExclusion.exec_positions rfl]
      exact cleared_settle q _
  | acquireLock key ttl =>
      rw [RowExclusion.exec_positions rfl]
      rcases (exec S (.acquireLock key ttl) c w).1 with e | _ | _
      · exact h
      · exact h
      · simp only [stageProtocol]
        split
        · rintro (hq | hq) <;> cases hq
        · exact h
  | releaseLock key =>
      rw [RowExclusion.exec_positions rfl]
      simp only [stageProtocol]
      split
      · rintro (hq | hq) <;> cases hq
      · exact h
  | _ =>
      rw [RowExclusion.exec_positions rfl]
      exact h

/-- The machine can follow a call of the only task inside. -/
theorem moves_next (t : ℚ) (hallows : (stageProtocol symbol side).allows q op)
    (h : Cleared q (openRows symbol w.positions)) :
    Moves (q.view (openRows symbol w.positions))
      (((stageProtocol symbol side).next q t op (exec S op c w).1).view
        (openRows symbol (exec S op c w).2.positions)) := by
  have h' := cleared_next (S := S) (c := c) t hallows h
  cases RowExclusion.exec_rowChange S symbol op c w with
  | kept same =>
      rw [same] at h' ⊢
      exact moves_of_rows h h'
  | closed id closing call rows =>
      subst call
      have hq : q = .exiting := hallows
      subst hq
      by_cases hnone : openRows symbol w.positions = []
      · rw [rows, hnone]
        exact .inl rfl
      rw [view_open h hnone, if_pos rfl]
      by_cases hleft : openRows symbol (exec S (.updateClosed id closing) c w).2.positions = []
      · rw [hleft]
        exact .inr rfl
      · rw [view_open h' hleft]
        exact .inl rfl
  | inserted p call id utc rows =>
      subst call
      obtain ⟨hq, hsymbol⟩ : q = .entering ∧ p.symbol = symbol := hallows
      rw [openRows_append symbol rows hsymbol, h (.inr hq), hq]
      exact .inr rfl

/-- The open rows change only as a buy enters, with the row it opens, or as a sell exits. -/
theorem rows_next (t : ℚ) (hallows : (stageProtocol symbol side).allows q op)
    (h : Cleared q (openRows symbol w.positions))
    (hne : openRows symbol (exec S op c w).2.positions ≠ openRows symbol w.positions) :
    (q.view (openRows symbol w.positions) = .entering ∧
      ((stageProtocol symbol side).next q t op (exec S op c w).1).view
        (openRows symbol (exec S op c w).2.positions) = .open) ∨
    q.view (openRows symbol w.positions) = .exiting := by
  cases RowExclusion.exec_rowChange S symbol op c w with
  | kept same => exact absurd same hne
  | closed id closing call rows =>
      subst call
      have hq : q = .exiting := hallows
      have hnone : openRows symbol w.positions ≠ [] := fun hnone => hne (by rw [rows, hnone]; rfl)
      rw [view_open h hnone, if_pos hq]
      exact .inr rfl
  | inserted p call id utc rows =>
      subst call
      obtain ⟨hq, hsymbol⟩ : q = .entering ∧ p.symbol = symbol := hallows
      rw [openRows_append symbol rows hsymbol, h (.inr hq), hq]
      exact .inl ⟨rfl, rfl⟩

/-- A call outside the lock writes no row and gets at most inside. -/
theorem next_of_out (t : ℚ) (hallows : (stageProtocol symbol side).allows .out op) (r : Except Exc op.Res) :
    RowExclusion.writesRows op = false ∧ ((stageProtocol symbol side).next .out t op r = .out ∨
      (stageProtocol symbol side).next .out t op r = .locked) := by
  cases op with
  | insertPosition p => cases hallows.1
  | updateClosed id closing => cases hallows
  | acquireLock key ttl =>
      refine ⟨rfl, ?_⟩
      rcases r with e | _ | _
      · exact .inl rfl
      · exact .inl rfl
      · simp only [stageProtocol]
        split
        · exact .inr rfl
        · exact .inl rfl
  | releaseLock key =>
      refine ⟨rfl, ?_⟩
      simp [stageProtocol]
  | selectPositions status s limit => rcases r with e | rows <;> exact ⟨rfl, .inl rfl⟩
  | calculateSafeOrderSize s d => cases d <;> rcases r with e | _ | size <;> exact ⟨rfl, .inl rfl⟩
  | submitOrder s d qty => rcases r with e | (⟨orderId, filled⟩ | error) <;> exact ⟨rfl, .inl rfl⟩
  | insertTrade trade => rcases r with e | u <;> exact ⟨rfl, .inl rfl⟩
  | set key value ttl => exact ⟨rfl, .inl rfl⟩
  | _ => exact ⟨rfl, .inl rfl⟩

/-- A call is inside as long as it holds the lock. -/
theorem out_next {since : Option ℚ} (h : q = .out ↔ since = none) (t : ℚ) (r : Except Exc op.Res) :
    (stageProtocol symbol side).next q t op r = .out ↔ (lockProtocol symbol).next since t op r = none := by
  cases op with
  | acquireLock key ttl =>
      rcases r with e | _ | _
      · exact h
      · exact h
      · simp only [stageProtocol, lockProtocol]
        split
        · simp
        · exact h
  | releaseLock key =>
      simp only [stageProtocol, lockProtocol]
      split
      · simp
      · exact h
  | selectPositions status s limit =>
      rcases r with e | rows
      · exact settle_eq_out.trans h
      · exact list_eq_out.trans h
  | calculateSafeOrderSize s d =>
      cases d with
      | sell => exact h
      | buy =>
          rcases r with e | _ | size
          · exact h
          · exact h
          · simp only [stageProtocol]
            split
            · next hq => exact iff_of_false (by decide) (fun hs => absurd (h.2 hs) (by rw [hq]; decide))
            · exact h
  | submitOrder s d qty =>
      rcases r with e | (⟨orderId, filled⟩ | error)
      · exact settle_eq_out.trans h
      · exact h
      · exact settle_eq_out.trans h
  | insertTrade trade =>
      rcases r with e | u
      · exact settle_eq_out.trans h
      · exact h
  | insertPosition p => exact settle_eq_out.trans h
  | set key value ttl => exact settle_eq_out.trans h
  | _ => exact h

end World

variable {ι : Type} [DecidableEq ι]

def stage (symbol : String) (calls : ι → Call) (x : Calls ι) (i : ι) : Stage :=
  phase (stageProtocol symbol (calls i).side) i x.trace

/-- The state of a symbol as its rows and the calls under way show it. -/
def observed [Fintype ι] (symbol : String) (calls : ι → Call) (x : Calls ι) : PositionState :=
  if ∃ i, stage symbol calls x i = .entering then .entering
  else if (openRows symbol x.world.positions).isEmpty then .none
  else if ∃ i, stage symbol calls x i = .exiting then .exiting
  else .open

structure StagesKept (symbol : String) (calls : ι → Call) (x : Calls ι) : Prop where
  lock : LockKept symbol x
  disciplined : Disciplined (fun i => stageProtocol symbol (calls i).side) x
  cleared : ∀ i, Cleared (stage symbol calls x i) (openRows symbol x.world.positions)

section Pool

variable {S : Setting} {symbol : String} {calls : ι → Call} {x : Calls ι}

theorem stage_eq_out (symbol : String) (side : Side) (i : ι) (tr : List (Event ι Op Op.Res Exc Outcome)) :
    phase (stageProtocol symbol side) i tr = .out ↔ phase (lockProtocol symbol) i tr = none := by
  induction tr with
  | nil => exact ⟨fun _ => rfl, fun _ => rfl⟩
  | cons e tr ih =>
      simp only [phase]
      split
      · exact out_next ih _ _
      · exact ih

/-- Two calls inside are one. -/
theorem out_of_ne (hl : LockKept symbol x) {i j : ι} (hi : stage symbol calls x i ≠ .out) (hj : j ≠ i) :
    stage symbol calls x j = .out := by
  by_contra hne
  have hheld : ∀ k, stage symbol calls x k ≠ .out → (heldSince symbol x k).isSome = true := fun k hk =>
    Option.isSome_iff_ne_none.2 (fun h => hk ((stage_eq_out symbol (calls k).side k x.trace).2 h))
  exact hj (hl.exclusive j i (hheld j hne) (hheld i hi))

theorem begin_stages (symbol : String) (calls : ι → Call) (hsymbol : ∀ i, (calls i).symbol = symbol) (w : World) :
    StagesKept symbol calls (begin calls w) where
  lock := lockKept_begin symbol calls w
  disciplined := disciplined_start (P := fun i => stageProtocol symbol (calls i).side)
    (fun i => call_stage (calls i) (hsymbol i)) w
  cleared _ h := by rcases h with h | h <;> cases h

variable [Fintype ι]

theorem observed_alone {i : ι} (h : ∀ j, j ≠ i → stage symbol calls x j = .out) :
    observed symbol calls x = (stage symbol calls x i).view (openRows symbol x.world.positions) := by
  have honly : ∀ q, q ≠ .out → ((∃ j, stage symbol calls x j = q) ↔ stage symbol calls x i = q) := by
    refine fun q hq => ⟨fun ⟨j, hj⟩ => ?_, fun hi => ⟨i, hi⟩⟩
    by_cases hji : j = i
    · rwa [hji] at hj
    · exact absurd ((h j hji).symm.trans hj) (Ne.symm hq)
  unfold observed Stage.view
  simp only [honly .entering (by decide), honly .exiting (by decide)]

/-- A step of a call outside shows neither in the rows nor in a stage that is looked at. -/
theorem observed_of_out {x' : Calls ι} {i : ι}
    (hrows : openRows symbol x'.world.positions = openRows symbol x.world.positions)
    (hne : ∀ j, j ≠ i → stage symbol calls x' j = stage symbol calls x j) (hout : stage symbol calls x i = .out)
    (hnext : stage symbol calls x' i = .out ∨ stage symbol calls x' i = .locked) :
    observed symbol calls x' = observed symbol calls x := by
  have hsame : ∀ q, q ≠ .out → q ≠ .locked →
      ((∃ j, stage symbol calls x' j = q) ↔ ∃ j, stage symbol calls x j = q) := by
    refine fun q hq hq' => exists_congr (fun j => ?_)
    by_cases hj : j = i
    · subst hj
      refine iff_of_false (fun h => ?_) (fun h => hq (h.symm.trans hout))
      rcases hnext with h' | h'
      · exact hq (h.symm.trans h')
      · exact hq' (h.symm.trans h')
    · rw [hne j hj]
  unfold observed
  simp only [hsame .entering (by decide) (by decide), hsame .exiting (by decide) (by decide), hrows]

/-- A buy is ordered only in `ENTERING`; the open rows change only on the way from there to
`OPEN`, and in `EXITING`. -/
def Announced (S : Setting) (symbol : String) (calls : ι → Call) (x : Calls ι) (i : ι) (c : Env) : Prop :=
  (∀ s qty, (x.task i).next = some (.submitOrder s .buy qty) → observed symbol calls x = .entering) ∧
  (openRows symbol (step (handler S) x (i, c)).world.positions ≠ openRows symbol x.world.positions →
    (observed symbol calls x = .entering ∧ observed symbol calls (step (handler S) x (i, c)) = .open) ∨
      observed symbol calls x = .exiting)

/-- What the section of a symbol adds to the lock is kept, and the machine can follow. -/
structure Followed (S : Setting) (symbol : String) (calls : ι → Call) (x : Calls ι) (i : ι) (c : Env) : Prop where
  kept : StagesKept symbol calls (step (handler S) x (i, c))
  moves : Moves (observed symbol calls x) (observed symbol calls (step (handler S) x (i, c)))
  announced : Announced S symbol calls x i c

theorem stages_step (hx : StagesKept symbol calls x) {i : ι} {c : Env} (ht : Timely S symbol x i c) :
    Followed S symbol calls x i c := by
  have hlock := lockKept_step hx.lock ht
  have hdisciplined := disciplined_step _ (handler S) hx.disciplined i c
  rcases step_cases (handler S) x i c with ⟨hn, hs⟩ | ⟨op, k, htask, hs⟩
  · refine ⟨by rw [hs]; exact hx, by rw [hs]; exact .inl rfl, fun s qty h => ?_, fun h => ?_⟩
    · rw [hn] at h
      cases h
    · rw [hs] at h
      exact absurd rfl h
  have hallows : (stageProtocol symbol (calls i).side).allows (stage symbol calls x i) op :=
    hx.disciplined.allows htask
  have hself : stage symbol calls (step (handler S) x (i, c)) i =
      (stageProtocol symbol (calls i).side).next (stage symbol calls x i)
        ((handler S).clock (exec S op c x.world).2) op (exec S op c x.world).1 := by
    rw [hs]
    exact phase_answered _ x i _ op _ _ _
  have hother : ∀ j, j ≠ i → stage symbol calls (step (handler S) x (i, c)) j = stage symbol calls x j := by
    intro j hj
    rw [hs]
    exact phase_answered_ne _ x hj _ op _ _ _
  have hworld : (step (handler S) x (i, c)).world = (exec S op c x.world).2 := by rw [hs]; rfl
  have hsubmit : ∀ s qty, (x.task i).next = some (.submitOrder s .buy qty) → observed symbol calls x = .entering := by
    intro s qty h
    rw [htask] at h
    obtain rfl : op = .submitOrder s .buy qty := Option.some.inj h
    exact if_pos ⟨i, hallows⟩
  by_cases hout : stage symbol calls x i = .out
  · rw [hout] at hallows hself
    obtain ⟨hwrites, hnext⟩ := next_of_out ((handler S).clock (exec S op c x.world).2) hallows (exec S op c x.world).1
    have hrows : openRows symbol (step (handler S) x (i, c)).world.positions = openRows symbol x.world.positions := by
      rw [hworld, RowExclusion.exec_positions hwrites]
    rw [← hself] at hnext
    refine ⟨⟨hlock, hdisciplined, fun j => ?_⟩, .inl (observed_of_out hrows hother hout hnext), hsubmit,
      fun h => absurd hrows h⟩
    by_cases hj : j = i
    · subst hj
      rcases hnext with h | h <;> rw [h] <;> rintro (hq | hq) <;> cases hq
    · rw [hother j hj, hrows]
      exact hx.cleared j
  · have halone : ∀ j, j ≠ i → stage symbol calls x j = .out := fun j hj => out_of_ne hx.lock hout hj
    have halone' : ∀ j, j ≠ i → stage symbol calls (step (handler S) x (i, c)) j = .out :=
      fun j hj => (hother j hj).trans (halone j hj)
    have hcleared := hx.cleared i
    refine ⟨⟨hlock, hdisciplined, fun j => ?_⟩, ?_, hsubmit, ?_⟩
    · by_cases hj : j = i
      · subst hj
        rw [hself, hworld]
        exact cleared_next _ hallows hcleared
      · rw [halone' j hj]
        rintro (hq | hq) <;> cases hq
    · rw [observed_alone halone, observed_alone halone', hself, hworld]
      exact moves_next _ hallows hcleared
    · rw [observed_alone halone, observed_alone halone', hself, hworld]
      exact rows_next _ hallows hcleared

end Pool

/-- Buys and sells of one symbol take it through the states of the position machine: as
long as no acquire of the lock comes when the time of a holder has run out, the states that
the rows and the calls under way show are ones that `transition` accepts one after another. -/
theorem calls_follow_positionState [Fintype ι] (S : Setting) (symbol : String) (calls : ι → Call)
    (hsymbol : ∀ i, (calls i).symbol = symbol) (w : World) (ls : List (ι × Env))
    (htimely : Along (handler S) (Timely S symbol) (begin calls w) ls) :
    (readings (step (handler S)) (observed symbol calls) (begin calls w) ls).foldlM PositionState.track
        (observed symbol calls (begin calls w)) =
      .ok (observed symbol calls (runs (handler S) (begin calls w) ls)) ∧
    Along (handler S) (Announced S symbol calls) (begin calls w) ls := by
  have hkept := begin_stages symbol calls hsymbol w
  have hrun : Along (handler S) (Followed S symbol calls) (begin calls w) ls :=
    alongRun_of_step (P := StagesKept symbol calls) (fun _ _ hx ht => (stages_step hx ht).kept)
      (fun _ _ hx ht => stages_step hx ht) hkept htimely
  exact ⟨foldlM_readings (hrun.mono (fun _ _ h => PositionState.track_eq_ok h.moves)),
    hrun.mono (fun _ _ h => h.announced)⟩

def buyAndSell : Bool → Call
  | false => .buy "BTCUSDT" "ema" "sig-1" 30000
  | true => .sell "BTCUSDT" "ema" "sig-2" 31000 none

def boughtThenSold : List (Bool × Env) :=
  (List.replicate 10 false ++ List.replicate 11 true).map (fun i => (i, Env.trading))

theorem calls_follow_positionState_buy :
    (readings (step (handler defaults)) (observed "BTCUSDT" buyAndSell) (begin buyAndSell .empty)
        boughtThenSold).foldlM PositionState.track (observed "BTCUSDT" buyAndSell (begin buyAndSell .empty)) =
      .ok (observed "BTCUSDT" buyAndSell (runs (handler defaults) (begin buyAndSell .empty) boughtThenSold)) ∧
    Along (handler defaults) (Announced defaults "BTCUSDT" buyAndSell) (begin buyAndSell .empty) boughtThenSold :=
  calls_follow_positionState defaults "BTCUSDT" buyAndSell (by decide) .empty boughtThenSold (by decide +kernel)

example : (readings (step (handler defaults)) (observed "BTCUSDT" buyAndSell) (begin buyAndSell .empty)
    boughtThenSold).destutter (· ≠ ·) = [.none, .entering, .open, .exiting, .none] := by
  decide +kernel

end Autr.Services.PositionStates
