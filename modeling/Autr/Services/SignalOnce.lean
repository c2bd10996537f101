import Autr.Services.SymbolLock
import Mathlib.Tactic.Linarith

namespace Autr.Services.SignalOnce

open Autr.Async Autr.Infra Bybit Redis Executor SymbolLock

/-- How far a call has come: inside its section, past the check for a duplicate, past an
accepted order that is not marked yet, or past everything that could order. -/
inductive Stage
  | outside
  | entered
  | checked
  | ordered
  | done
  deriving DecidableEq

def isMark (value : Option String) : Bool := value.any (· ≠ "")

def orderProtocol (symbol sigId : String) : Protocol Op Op.Res Exc Stage where
  start := .outside
  next q _ op r := match op, r with
    | .acquireLock _ _, .ok true => .entered
    | .releaseLock _, _ => .done
    | .get _, .ok value => if isMark value then .done else .checked
    | .get _, .error _ => .done
    | .submitOrder _ _ _, .ok (.success _ _) => .ordered
    | .insertTrade _, .error _ => .done
    | .set _ _ _, _ => .done
    | _, _ => q
  allows q op := match q, op with
    | .outside, .acquireLock key _ => key = executorLock symbol
    | .outside, _ => False
    | .entered, .get key => key = processedKey sigId
    | .entered, _ => False
    | .checked, .insertTrade _ => False
    | .checked, .releaseLock key => key = executorLock symbol
    | .checked, op => op.key = none
    | .ordered, .submitOrder _ _ _ => False
    | .ordered, .set key value ex => key = processedKey sigId ∧ value = "1" ∧ ex = some processedTtl
    | .ordered, op => op.key = none
    | .done, .submitOrder _ _ _ => False
    | .done, .releaseLock key => key = executorLock symbol
    | .done, op => op.key = none
  final _ := True

def Leaving (q : Stage) : Prop := q = .checked ∨ q = .done

theorem rows_keep_ordered (symbol sigId : String) (op : Op) (h : Rows op) :
    (orderProtocol symbol sigId).allows .ordered op ∧
      ∀ t r, (orderProtocol symbol sigId).next .ordered t op r = .ordered := by
  cases op <;> first | exact h.elim | exact ⟨rfl, fun _ _ => rfl⟩

section Follows

variable (symbol strategy sigId : String) (closePrice : ℚ)

theorem notify_leaving {q : Stage} (hq : Leaving q) (notice : Notice) (outcome : Outcome) :
    (do notify notice; return outcome : Svc Outcome).wp (orderProtocol symbol sigId).spec
      (fun _ q => Leaving q) q := by
  rw [notify, Prog.wp_bind, Prog.wp_perform]
  rcases hq with rfl | rfl
  · refine ⟨rfl, fun t r => ?_⟩
    rcases r with e | u <;> exact .inl rfl
  · refine ⟨rfl, fun t r => ?_⟩
    rcases r with e | u <;> exact .inr rfl

theorem mark_ordered (notice : Notice) (outcome : Outcome) :
    (do markProcessed sigId processedTtl; notify notice; return outcome : Svc Outcome).wp
      (orderProtocol symbol sigId).spec (fun _ q => Leaving q) .ordered := by
  rw [markProcessed, Prog.wp_bind, Prog.wp_perform]
  refine ⟨⟨rfl, rfl, rfl⟩, fun t r => ?_⟩
  rcases r with e | u
  · exact .inr rfl
  · exact notify_leaving symbol sigId (.inr rfl) notice outcome

theorem recordBuy_ordered (filledQty : ℚ) (orderId : String) :
    (recordBuy symbol strategy sigId closePrice filledQty orderId).wp (orderProtocol symbol sigId).spec
      (fun _ q => Leaving q) .ordered := by
  rw [recordBuy, Prog.wp_bind, Prog.wp_perform]
  refine ⟨rfl, fun t r => ?_⟩
  rcases r with e | u
  · exact .inr rfl
  rw [Prog.out_ok, Prog.wp_bind, Prog.wp_attempt, Prog.wp_perform]
  refine ⟨rfl, fun t r => ?_⟩
  rcases r with e | u <;> exact mark_ordered symbol sigId _ _

theorem recordSell_ordered (filledQty totalInvested : ℚ) (orderId : String) :
    (recordSell symbol strategy sigId closePrice filledQty totalInvested orderId).wp
      (orderProtocol symbol sigId).spec (fun _ q => Leaving q) .ordered := by
  rw [recordSell, Prog.wp_bind, Prog.wp_perform]
  refine ⟨rfl, fun t r => ?_⟩
  rcases r with e | u
  · exact .inr rfl
  rw [Prog.out_ok, Prog.wp_bind, Prog.wp_attempt, Prog.wp_bind, openPositionsOf, Prog.wp_perform]
  refine ⟨rfl, fun t r => ?_⟩
  rcases r with e | openPositions
  · exact mark_ordered symbol sigId _ _
  · refine Prog.wp_mono (orderProtocol symbol sigId).spec_mono _ (fun r q hq => ?_) _
      ((orderProtocol symbol sigId).wp_of_uses (rows_keep_ordered symbol sigId) _
        (closeAll_rows closePrice openPositions))
    subst hq
    rcases r with e | u <;> exact mark_ordered symbol sigId _ _

theorem submit_checked (side : Side) (qty : ℚ) (k : OrderResult → Svc Outcome)
    (hfailure : ∀ error, (k (.failure error)).wp (orderProtocol symbol sigId).spec (fun _ q => Leaving q) .checked)
    (hsuccess : ∀ orderId filled, (k (.success orderId filled)).wp (orderProtocol symbol sigId).spec
      (fun _ q => Leaving q) .ordered) :
    (await (.submitOrder symbol side qty) >>= k).wp (orderProtocol symbol sigId).spec
      (fun _ q => Leaving q) .checked := by
  rw [Prog.wp_bind, Prog.wp_perform]
  refine ⟨rfl, fun t r => ?_⟩
  rcases r with e | (⟨orderId, filled⟩ | error)
  · exact .inl rfl
  · exact hsuccess orderId filled
  · exact hfailure error

theorem isProcessed_entered (k : Bool → Svc Outcome) (outcome : Outcome) (hdup : k true = pure outcome)
    (hnew : (k false).wp (orderProtocol symbol sigId).spec (fun _ q => Leaving q) .checked) :
    (isProcessed sigId >>= k).wp (orderProtocol symbol sigId).spec (fun _ q => Leaving q) .entered := by
  rw [isProcessed, Prog.wp_bind, Prog.wp_bind, Prog.wp_perform]
  refine ⟨rfl, fun t r => ?_⟩
  rcases r with e | value
  · exact .inr rfl
  · rw [Prog.out_ok, Prog.wp_pure, Prog.out_ok]
    cases hv : isMark value with
    | true =>
        have hk : value.any (· ≠ "") = true := hv
        rw [hk, hdup]
        exact .inr (by simp [orderProtocol, hv])
    | false =>
        have hk : value.any (· ≠ "") = false := hv
        rw [hk]
        simpa [orderProtocol, hv] using hnew

theorem buySection_entered :
    (buySection symbol strategy sigId closePrice).wp (orderProtocol symbol sigId).spec
      (fun _ q => Leaving q) .entered := by
  refine isProcessed_entered symbol sigId _ (.refused .duplicateSignal) rfl ?_
  rw [if_neg Bool.false_ne_true, openPositionsOf, Prog.wp_bind, Prog.wp_perform]
  refine ⟨rfl, fun t r => ?_⟩
  rcases r with e | openPositions
  · exact .inl rfl
  rw [Prog.out_ok]
  split
  · exact .inl rfl
  rw [Prog.wp_bind, Prog.wp_perform]
  refine ⟨rfl, fun t r => ?_⟩
  rcases r with e | (_ | safeQty)
  · exact .inl rfl
  · exact notify_leaving symbol sigId (.inl rfl) _ _
  · exact submit_checked symbol sigId .buy safeQty _
      (fun error => notify_leaving symbol sigId (.inl rfl) _ _)
      (fun orderId filled => recordBuy_ordered symbol strategy sigId closePrice _ orderId)

theorem sellSection_entered (qty : Option ℚ) :
    (sellSection symbol strategy sigId closePrice qty).wp (orderProtocol symbol sigId).spec
      (fun _ q => Leaving q) .entered := by
  refine isProcessed_entered symbol sigId _ (.refused .duplicateSignal) rfl ?_
  rw [if_neg Bool.false_ne_true, openPositionsOf, Prog.wp_bind, Prog.wp_perform]
  refine ⟨rfl, fun t r => ?_⟩
  rcases r with e | openPositions
  · exact .inl rfl
  cases qty with
  | some q =>
      exact submit_checked symbol sigId .sell q _
        (fun error => notify_leaving symbol sigId (.inl rfl) _ _)
        (fun orderId filled => recordSell_ordered symbol strategy sigId closePrice _ _ orderId)
  | none =>
      rw [Prog.out_ok, Executor.placeOrder, Prog.wp_bind, Prog.wp_bind, Prog.wp_perform]
      refine ⟨rfl, fun t r => ?_⟩
      rcases r with e | (_ | q)
      · exact .inl rfl
      · exact notify_leaving symbol sigId (.inl rfl) _ _
      · rw [Prog.out_ok, Prog.wp_perform]
        refine ⟨rfl, fun t r => ?_⟩
        rcases r with e | (⟨orderId, filled⟩ | error)
        · exact .inl rfl
        · exact recordSell_ordered symbol strategy sigId closePrice _ _ orderId
        · exact notify_leaving symbol sigId (.inl rfl) _ _

end Follows

theorem body_entered (call : Call) :
    call.body.wp (orderProtocol call.symbol call.sigId).spec (fun _ q => Leaving q) .entered := by
  cases call with
  | buy symbol strategy sigId closePrice => exact buySection_entered symbol strategy sigId closePrice
  | sell symbol strategy sigId closePrice qty =>
      exact sellSection_entered symbol strategy sigId closePrice qty

theorem call_follows_order (call : Call) :
    (orderProtocol call.symbol call.sigId).Follows .outside call.prog := by
  rw [Call.prog_eq, Protocol.Follows, withLock, Prog.wp_bind, Prog.wp_perform]
  refine ⟨rfl, fun t r => ?_⟩
  rcases r with e | _ | _
  · trivial
  · trivial
  · rw [Prog.out_ok, if_pos rfl, Prog.wp_ensure]
    refine Prog.wp_mono (orderProtocol call.symbol call.sigId).spec_mono _ (fun r q hq => ?_) _
      (body_entered call)
    rw [Prog.wp_perform]
    rcases hq with rfl | rfl
    · refine ⟨rfl, fun t r => ?_⟩
      rcases r with e | u <;> trivial
    · refine ⟨rfl, fun t r => ?_⟩
      rcases r with e | u <;> trivial

variable {ι : Type}

def accepted : Event ι Op Op.Res Exc Outcome → Bool
  | ⟨_, _, .submitOrder _ _ _, .ok (.success _ _), _⟩ => true
  | _ => false

variable (calls : ι → Call) (sigId : String)

def orders (x : Calls ι) : ℕ :=
  x.trace.countP (fun e => decide ((calls e.task).sigId = sigId) && accepted e)

/-- The signal is marked for as long as a mark set at the first call would last. -/
def Marked (first : ℚ) (x : Calls ι) : Prop :=
  ∃ exp, x.world.redis (processedKey sigId) = some ⟨"1", some exp⟩ ∧ first + processedTtl ≤ exp

/-- Every step of a call for the signal comes within the lifetime of a mark set at `first`. -/
def Within (S : Setting) (first : ℚ) (x : Calls ι) (i : ι) (c : Env) : Prop :=
  (calls i).sigId = sigId → first ≤ x.world.now + c.elapsed ∧
    S.backend.expired (x.world.now + c.elapsed) (first + processedTtl) = false

/-- The two failures after which an order stays without a mark. -/
def losesMark : Op → Fault → Bool
  | .insertTrade _, fault => fault ≠ .none
  | .set _ _ _, fault => fault = .lost
  | _, _ => false

/-- An accepted order for the signal gets its trade and its mark written. -/
def Recorded (x : Calls ι) (i : ι) (c : Env) : Prop :=
  (calls i).sigId = sigId → ∀ op ∈ (x.task i).next, losesMark op c.fault = false

instance (S : Setting) (first : ℚ) (x : Calls ι) (i : ι) (c : Env) :
    Decidable (Within calls sigId S first x i c) :=
  inferInstanceAs (Decidable (_ → _ ∧ _))

instance (x : Calls ι) (i : ι) (c : Env) : Decidable (Recorded calls sigId x i c) :=
  inferInstanceAs (Decidable (_ → ∀ op ∈ (x.task i).next, _))

variable {calls sigId} {S : Setting} {first : ℚ} {x : Calls ι} {i : ι} {c : Env}

theorem orders_cons (e : Event ι Op Op.Res Exc Outcome) (w : World) (task : ι → Svc Outcome) :
    orders calls sigId ⟨w, task, e :: x.trace⟩ =
      orders calls sigId x + if (calls e.task).sigId = sigId ∧ accepted e = true then 1 else 0 := by
  simp [orders, List.countP_cons]

theorem orders_cons_of_refused {e : Event ι Op Op.Res Exc Outcome} (h : accepted e = false) (w : World)
    (task : ι → Svc Outcome) : orders calls sigId ⟨w, task, e :: x.trace⟩ = orders calls sigId x := by
  rw [orders_cons, if_neg (by simp [h])]
  rfl

theorem marked_of_redis_eq {x x' : Calls ι}
    (h : x'.world.redis (processedKey sigId) = x.world.redis (processedKey sigId)) :
    Marked sigId first x → Marked sigId first x' := by
  rintro ⟨exp, he, hle⟩
  exact ⟨exp, h.trans he, hle⟩

theorem get_of_marked (hm : Marked sigId first x)
    (hw : S.backend.expired (x.world.now + c.elapsed) (first + processedTtl) = false) :
    Redis.get S.backend (x.world.now + c.elapsed) (processedKey sigId) x.world.redis = (some "1", x.world.redis) := by
  obtain ⟨exp, he, hle⟩ := hm
  refine get_of_not_expired he ?_
  by_contra h
  rw [expired_mono S.backend hle (by simpa using h)] at hw
  cases hw

variable [DecidableEq ι] (calls sigId)

def stage (x : Calls ι) (i : ι) : Stage := phase (orderProtocol (calls i).symbol (calls i).sigId) i x.trace

def OrderDisciplined (x : Calls ι) : Prop :=
  Disciplined (fun i => orderProtocol (calls i).symbol (calls i).sigId) x

/-- Calls for the signal on two symbols do not overlap. -/
def Apart (x : Calls ι) (i : ι) : Prop :=
  (calls i).sigId = sigId → (x.task i).next = some (.acquireLock (executorLock (calls i).symbol) lockTtl) →
    ∀ j, (calls j).sigId = sigId → (calls j).symbol ≠ (calls i).symbol →
      heldSince (calls j).symbol x j = none

instance [Fintype ι] (x : Calls ι) (i : ι) : Decidable (Apart calls sigId x i) :=
  inferInstanceAs (Decidable (_ → _ → ∀ _ : ι, _ → _ → _))

inductive OrderStep (first : ℚ) (x : Calls ι) (i : ι) (x' : Calls ι) : Prop
  | kept (same : stage calls x' = stage calls x) (count : orders calls sigId x' = orders calls sigId x)
      (marked : Marked sigId first x → Marked sigId first x')
  | entered (outside : stage calls x i = .outside) (moved : stage calls x' = Function.update (stage calls x) i .entered)
      (count : orders calls sigId x' = orders calls sigId x)
      (marked : Marked sigId first x → Marked sigId first x')
  | checked (entered : stage calls x i = .entered) (moved : stage calls x' = Function.update (stage calls x) i .checked)
      (count : orders calls sigId x' = orders calls sigId x) (unmarked : ¬ Marked sigId first x)
  | finished (unordered : stage calls x i ≠ .ordered) (moved : stage calls x' = Function.update (stage calls x) i .done)
      (count : orders calls sigId x' = orders calls sigId x)
      (marked : Marked sigId first x → Marked sigId first x')
  | ordered (checked : stage calls x i = .checked) (moved : stage calls x' = Function.update (stage calls x) i .ordered)
      (count : orders calls sigId x' = orders calls sigId x + 1)
  | recorded (ordered : stage calls x i = .ordered) (moved : stage calls x' = Function.update (stage calls x) i .done)
      (count : orders calls sigId x' = orders calls sigId x) (marked : Marked sigId first x')

variable {calls sigId}

theorem stage_cons (e : Event ι Op Op.Res Exc Outcome) (w : World) (task : ι → Svc Outcome) :
    stage calls ⟨w, task, e :: x.trace⟩ = Function.update (stage calls x) e.task
      ((orderProtocol (calls e.task).symbol (calls e.task).sigId).next (stage calls x e.task) e.time e.op e.result) :=
  phases_cons (fun i => orderProtocol (calls i).symbol (calls i).sigId) e x.trace

section OrderStep

variable {op : Op} {r : Except Exc op.Res} {w : World} {p : Svc Outcome}

theorem kept_step {q : Stage} (hq : stage calls x i = q)
    (hnext : (orderProtocol (calls i).symbol (calls i).sigId).next q w.now op r = q)
    (ha : accepted ⟨i, w.now, op, r, p.outcome⟩ = false)
    (hredis : w.redis (processedKey (calls i).sigId) = x.world.redis (processedKey (calls i).sigId)) :
    OrderStep calls (calls i).sigId first x i (x.answered i w.now op r w p) := by
  refine .kept ?_ (orders_cons_of_refused ha _ _) (marked_of_redis_eq hredis)
  rw [stage_cons, hq, hnext, ← hq, Function.update_eq_self]

theorem redis_of_exec {key : String} {v : World} (hrw : exec S op c v = (r, w)) (hk : op.key ≠ some key) :
    w.redis key = v.redis key := by
  have h := exec_redis_of_ne (S := S) (c := c) (w := v) hk
  rwa [hrw] at h

theorem key_ne_of_lock {symbol : String} (h : op.key = some (executorLock symbol)) (sigId : String) :
    op.key ≠ some (processedKey sigId) := by
  intro hk
  exact processedKey_ne_executorLock _ _ (Option.some.inj (hk.symm.trans h))

theorem key_ne_of_none (h : op.key = none) (sigId : String) : op.key ≠ some (processedKey sigId) := by
  intro hk
  cases h.symm.trans hk

theorem outside_step (hq : stage calls x i = .outside)
    (hallow : (orderProtocol (calls i).symbol (calls i).sigId).allows .outside op)
    (hrw : exec S op c x.world = (r, w)) :
    OrderStep calls (calls i).sigId first x i (x.answered i w.now op r w p) := by
  cases op with
  | acquireLock key ttl =>
      have hkey : (Op.acquireLock key ttl).key = some (executorLock (calls i).symbol) := congrArg some hallow
      have hredis := redis_of_exec hrw (key_ne_of_lock hkey (calls i).sigId)
      rcases r with e | _ | _
      · exact kept_step hq rfl rfl hredis
      · exact kept_step hq rfl rfl hredis
      · exact .entered hq (stage_cons _ _ _) (orders_cons_of_refused rfl _ _) (marked_of_redis_eq hredis)
  | _ => exact (hallow : False).elim

/-- The check of a marked signal ends the call, whether the answer arrives or not. -/
theorem entered_step_of_marked (hq : stage calls x i = .entered)
    (hallow : (orderProtocol (calls i).symbol (calls i).sigId).allows .entered op)
    (hrw : exec S op c x.world = (r, w)) (hw : Within calls (calls i).sigId S first x i c)
    (hm : Marked (calls i).sigId first x) :
    OrderStep calls (calls i).sigId first x i (x.answered i w.now op r w p) := by
  cases op with
  | get key =>
      obtain rfl : key = processedKey (calls i).sigId := hallow
      have hg := get_of_marked hm (hw rfl).2
      refine .finished (by simp [hq]) ?_ (orders_cons_of_refused rfl _ _) (marked_of_redis_eq ?_)
      · rw [stage_cons]
        cases hf : c.fault <;> simp [exec, Fault.apply, hf, hg] at hrw <;>
          simp [← hrw.1, orderProtocol, isMark]
      · cases hf : c.fault <;> simp [exec, Fault.apply, hf, hg] at hrw <;> simp [← hrw.2]
  | _ => exact (hallow : False).elim

theorem entered_step_of_unmarked (hq : stage calls x i = .entered)
    (hallow : (orderProtocol (calls i).symbol (calls i).sigId).allows .entered op)
    (hm : ¬ Marked (calls i).sigId first x) :
    OrderStep calls (calls i).sigId first x i (x.answered i w.now op r w p) := by
  cases op with
  | get key =>
      have hnext : stage calls (x.answered i w.now (.get key) r w p) = Function.update (stage calls x) i
        ((orderProtocol (calls i).symbol (calls i).sigId).next (stage calls x i) w.now (.get key) r) :=
          stage_cons _ _ _
      rcases r with e | value
      · exact .finished (by simp [hq]) hnext (orders_cons_of_refused rfl _ _) (fun h => absurd h hm)
      · cases hv : isMark value with
        | true =>
            refine .finished (by simp [hq]) (hnext.trans ?_) (orders_cons_of_refused rfl _ _)
              (fun h => absurd h hm)
            simp [orderProtocol, hv]
        | false =>
            refine .checked hq (hnext.trans ?_) (orders_cons_of_refused rfl _ _) hm
            simp [orderProtocol, hv]
  | _ => exact (hallow : False).elim

theorem checked_step (hq : stage calls x i = .checked)
    (hallow : (orderProtocol (calls i).symbol (calls i).sigId).allows .checked op)
    (hrw : exec S op c x.world = (r, w)) :
    OrderStep calls (calls i).sigId first x i (x.answered i w.now op r w p) := by
  cases op with
  | acquireLock | get | set => cases (hallow : some _ = none)
  | releaseLock key =>
      have hkey : (Op.releaseLock key).key = some (executorLock (calls i).symbol) := congrArg some hallow
      have hredis := redis_of_exec hrw (key_ne_of_lock hkey (calls i).sigId)
      exact .finished (by simp [hq]) (stage_cons _ _ _) (orders_cons_of_refused rfl _ _)
        (marked_of_redis_eq hredis)
  | submitOrder symbol side qty =>
      have hredis := redis_of_exec hrw (key_ne_of_none rfl (calls i).sigId)
      rcases r with e | ⟨orderId, filled⟩ | error
      · exact kept_step hq rfl rfl hredis
      · refine .ordered hq (stage_cons _ _ _) ?_
        rw [orders_cons, if_pos ⟨rfl, rfl⟩]
      · exact kept_step hq rfl rfl hredis
  | insertTrade => exact (hallow : False).elim
  | _ => exact kept_step hq rfl rfl (redis_of_exec hrw (key_ne_of_none rfl (calls i).sigId))

theorem ordered_step (hq : stage calls x i = .ordered)
    (hallow : (orderProtocol (calls i).symbol (calls i).sigId).allows .ordered op)
    (hrw : exec S op c x.world = (r, w)) (hw : Within calls (calls i).sigId S first x i c)
    (hfault : losesMark op c.fault = false) :
    OrderStep calls (calls i).sigId first x i (x.answered i w.now op r w p) := by
  cases op with
  | acquireLock | get | releaseLock => cases (hallow : some _ = none)
  | submitOrder => exact (hallow : False).elim
  | set key value ex =>
      obtain ⟨rfl, rfl, rfl⟩ := hallow
      have hf : c.fault ≠ .lost := of_decide_eq_false hfault
      refine .recorded hq (stage_cons _ _ _) (orders_cons_of_refused rfl _ _)
        ⟨x.world.now + c.elapsed + processedTtl, ?_, by linarith [(hw rfl).1]⟩
      cases hc : c.fault with
      | lost => exact absurd hc hf
      | none | late =>
          simp [exec, Fault.apply, hc, Redis.set, processedTtl] at hrw
          simp [← hrw.2, processedTtl]
  | insertTrade trade =>
      have hf : c.fault = .none := by simpa [losesMark] using hfault
      have hredis := redis_of_exec hrw (key_ne_of_none rfl (calls i).sigId)
      simp [exec, Fault.apply, hf] at hrw
      rcases r with e | u
      · cases hrw.1
      · exact kept_step hq rfl rfl hredis
  | _ => exact kept_step hq rfl rfl (redis_of_exec hrw (key_ne_of_none rfl (calls i).sigId))

theorem done_step (hq : stage calls x i = .done)
    (hallow : (orderProtocol (calls i).symbol (calls i).sigId).allows .done op)
    (hrw : exec S op c x.world = (r, w)) :
    OrderStep calls (calls i).sigId first x i (x.answered i w.now op r w p) := by
  cases op with
  | acquireLock | get | set => cases (hallow : some _ = none)
  | submitOrder => exact (hallow : False).elim
  | releaseLock key =>
      have hkey : (Op.releaseLock key).key = some (executorLock (calls i).symbol) := congrArg some hallow
      exact kept_step hq rfl rfl (redis_of_exec hrw (key_ne_of_lock hkey (calls i).sigId))
  | insertTrade trade =>
      have hredis := redis_of_exec hrw (key_ne_of_none rfl (calls i).sigId)
      rcases r with e | u <;> exact kept_step hq rfl rfl hredis
  | _ => exact kept_step hq rfl rfl (redis_of_exec hrw (key_ne_of_none rfl (calls i).sigId))

end OrderStep

theorem order_step (hd : OrderDisciplined calls x) (hi : (calls i).sigId = sigId)
    (hw : Within calls sigId S first x i c) (hr : Recorded calls sigId x i c) :
    OrderStep calls sigId first x i (step (handler S) x (i, c)) := by
  subst hi
  rcases step_cases (handler S) x i c with ⟨_, hs⟩ | ⟨op, k, hp, hs⟩
  · rw [hs]
    exact .kept rfl rfl id
  have hnext : (x.task i).next = some op := by rw [hp]; rfl
  have hallow : (orderProtocol (calls i).symbol (calls i).sigId).allows (stage calls x i) op := hd.allows hp
  obtain ⟨r, w, hrw⟩ : ∃ r w, exec S op c x.world = (r, w) := ⟨_, _, rfl⟩
  rw [hs, handler_exec, hrw]
  cases hq : stage calls x i with
  | outside => exact outside_step hq (hq ▸ hallow) hrw
  | entered =>
      by_cases hm : Marked (calls i).sigId first x
      · exact entered_step_of_marked hq (hq ▸ hallow) hrw hw hm
      · exact entered_step_of_unmarked hq (hq ▸ hallow) hm
  | checked => exact checked_step hq (hq ▸ hallow) hrw
  | ordered => exact ordered_step hq (hq ▸ hallow) hrw hw (hr rfl op hnext)
  | done => exact done_step hq (hq ▸ hallow) hrw

theorem allows_key {symbol s : String} {q : Stage} {op : Op} (h : (orderProtocol symbol s).allows q op) :
    op.key = none ∨ op.key = some (processedKey s) ∨ op.key = some (executorLock symbol) := by
  cases q <;> cases op <;> first
    | exact .inl rfl
    | exact (h : False).elim
    | exact .inl h
    | exact .inr (.inl (congrArg some h))
    | exact .inr (.inl (congrArg some h.1))
    | exact .inr (.inr (congrArg some h))

theorem heldSince_step_ne {j : ι} (h : j ≠ i) (symbol : String) :
    heldSince symbol (step (handler S) x (i, c)) j = heldSince symbol x j := by
  rcases step_cases (handler S) x i c with ⟨_, hs⟩ | ⟨op, k, _, hs⟩
  · rw [hs]
  · rw [hs, heldSince_cons, Function.update_of_ne h]

theorem stage_step_ne {j : ι} (h : j ≠ i) :
    stage calls (step (handler S) x (i, c)) j = stage calls x j := by
  rcases step_cases (handler S) x i c with ⟨_, hs⟩ | ⟨op, k, _, hs⟩
  · rw [hs]
  · rw [hs, stage_cons, Function.update_of_ne h]

theorem other_step (hd : OrderDisciplined calls x) (hi : (calls i).sigId ≠ sigId) :
    orders calls sigId (step (handler S) x (i, c)) = orders calls sigId x ∧
      (Marked sigId first x → Marked sigId first (step (handler S) x (i, c))) := by
  rcases step_cases (handler S) x i c with ⟨_, hs⟩ | ⟨op, k, hp, hs⟩
  · rw [hs]
    exact ⟨rfl, id⟩
  rw [hs]
  refine ⟨?_, marked_of_redis_eq (exec_redis_of_ne (fun hk => ?_))⟩
  · rw [orders_cons, if_neg (fun h => hi h.1)]
    rfl
  · rcases allows_key (hd.allows hp) with h | h | h
    · cases h.symm.trans hk
    · exact hi (processedKey_inj.1 (Option.some.inj (h.symm.trans hk)))
    · exact processedKey_ne_executorLock _ _ (Option.some.inj (hk.symm.trans h))

def Stage.inside (q : Stage) : Prop := q ≠ .outside ∧ q ≠ .done

theorem linked_step (hd : OrderDisciplined calls x) (i : ι) (c : Env)
    (h : (stage calls x i).inside → (heldSince (calls i).symbol x i).isSome)
    (hq : (stage calls (step (handler S) x (i, c)) i).inside) :
    (heldSince (calls i).symbol (step (handler S) x (i, c)) i).isSome := by
  rcases step_cases (handler S) x i c with ⟨_, hs⟩ | ⟨op, k, hp, hs⟩
  · rw [hs] at hq ⊢
    exact h hq
  have hallow := hd.allows hp
  change (orderProtocol (calls i).symbol (calls i).sigId).allows (stage calls x i) op at hallow
  rw [hs] at hq ⊢
  rw [stage_cons, Function.update_self] at hq
  rw [heldSince_cons, Function.update_self]
  generalize ((handler S).exec op c x.world).1 = r at hq ⊢
  cases op with
  | acquireLock key ttl =>
      cases hx : stage calls x i with
      | outside =>
          rw [hx] at hallow hq
          obtain rfl : key = executorLock (calls i).symbol := hallow
          rcases r with e | _ | _
          · exact absurd rfl hq.1
          · exact absurd rfl hq.1
          · simp [lockProtocol]
      | _ => rw [hx] at hallow; exact absurd hallow (by simp [orderProtocol, Op.key])
  | releaseLock key => exact absurd rfl hq.2
  | _ =>
      refine h ⟨fun hx => ?_, fun hx => ?_⟩
      · rw [hx] at hallow
        exact hallow
      · rw [hx] at hallow hq
        first
          | exact absurd rfl hq.2
          | exact (hallow : False)
          | exact Option.some_ne_none _ hallow
          | rcases r with e | u <;> exact absurd rfl hq.2

/-- Nothing has been ordered, or one order is about to be marked or marked. -/
def Tally (calls : ι → Call) (sigId : String) (first : ℚ) (x : Calls ι) : Prop :=
  (orders calls sigId x = 0 ∧ ∀ i, (calls i).sigId = sigId → stage calls x i ≠ .ordered) ∨
  (orders calls sigId x = 1 ∧ ((∃ i, (calls i).sigId = sigId ∧ stage calls x i = .ordered) ∨
    (Marked sigId first x ∧
      ∀ i, (calls i).sigId = sigId → stage calls x i ≠ .checked ∧ stage calls x i ≠ .ordered)))

/-- What holds of the calls for a signal while they meet their conditions: the ones inside
hold a lock, and there is one of them at most. -/
structure Once (calls : ι → Call) (sigId : String) (first : ℚ) (x : Calls ι) : Prop where
  linked : ∀ i, (calls i).sigId = sigId → (stage calls x i).inside →
    (heldSince (calls i).symbol x i).isSome
  solo : ∀ i j, (calls i).sigId = sigId → (calls j).sigId = sigId →
    (heldSince (calls i).symbol x i).isSome → (heldSince (calls j).symbol x j).isSome → i = j
  tally : Tally calls sigId first x

theorem Once.alone (h : Once calls sigId first x) {i j : ι} (hi : (calls i).sigId = sigId)
    (hj : (calls j).sigId = sigId) (hqi : (stage calls x i).inside) (hqj : (stage calls x j).inside) : i = j :=
  h.solo i j hi hj (h.linked i hi hqi) (h.linked j hj hqj)

theorem once_begin (calls : ι → Call) (sigId : String) (first : ℚ) (w : World) :
    Once calls sigId first (begin calls w) where
  linked _ _ h := absurd rfl h.1
  solo _ _ _ _ h := by cases h
  tally := .inl ⟨rfl, fun _ _ h => by cases h⟩

/-- The call that enters is alone: on its symbol by the lock, on the others by assumption. -/
theorem solo_step (h : Once calls sigId first x) (hd : LockDisciplined (calls i).symbol x)
    (ha : AtMostOne (calls i).symbol (step (handler S) x (i, c))) (hp : Apart calls sigId x i)
    {j : ι} (hi : (calls i).sigId = sigId) (hj : (calls j).sigId = sigId)
    (hhi : (heldSince (calls i).symbol (step (handler S) x (i, c)) i).isSome)
    (hhj : (heldSince (calls j).symbol (step (handler S) x (i, c)) j).isSome) : j = i := by
  by_contra hji
  have hhj' := hhj
  rw [heldSince_step_ne hji] at hhj'
  by_cases hs : (calls j).symbol = (calls i).symbol
  · rw [hs] at hhj
    exact hji (ha j i hhj hhi)
  have hx : heldSince (calls i).symbol x i = none := by
    by_contra hne
    exact hji (h.solo j i hj hi hhj' (Option.isSome_iff_ne_none.2 hne))
  cases lock_step (S := S) hd i c with
  | unchanged held => rw [held, hx] at hhi; cases hhi
  | orphaned _ held => rw [held, hx] at hhi; cases hhi
  | acquired next =>
      rw [hp hi next j hj hs] at hhj'
      cases hhj'
  | released _ holder => rw [hx] at holder; cases holder

section Tally

variable {x' : Calls ι}

theorem Tally.congr (h : Tally calls sigId first x)
    (hstage : ∀ j, (calls j).sigId = sigId → stage calls x' j = stage calls x j)
    (count : orders calls sigId x' = orders calls sigId x)
    (marked : Marked sigId first x → Marked sigId first x') : Tally calls sigId first x' := by
  rw [Tally, count]
  rcases h with ⟨h0, hno⟩ | ⟨h1, ⟨j, hj, hjo⟩ | ⟨hm, hno⟩⟩
  · exact .inl ⟨h0, fun j hj => by rw [hstage j hj]; exact hno j hj⟩
  · exact .inr ⟨h1, .inl ⟨j, hj, by rw [hstage j hj, hjo]⟩⟩
  · exact .inr ⟨h1, .inr ⟨marked hm, fun j hj => by rw [hstage j hj]; exact hno j hj⟩⟩

/-- A call that moves without ordering keeps the tally, whatever stage it moves to. -/
theorem Tally.moved (h : Tally calls sigId first x) {q : Stage} (hx : stage calls x i ≠ .ordered)
    (hq : q ≠ .ordered) (hqc : Marked sigId first x → q ≠ .checked)
    (moved : stage calls x' = Function.update (stage calls x) i q)
    (count : orders calls sigId x' = orders calls sigId x)
    (marked : Marked sigId first x → Marked sigId first x') : Tally calls sigId first x' := by
  rw [Tally, count, moved]
  rcases h with ⟨h0, hno⟩ | ⟨h1, ⟨j, hj, hjo⟩ | ⟨hm, hno⟩⟩
  · refine .inl ⟨h0, fun j hj => ?_⟩
    by_cases hji : j = i
    · rwa [hji, Function.update_self]
    · rw [Function.update_of_ne hji]
      exact hno j hj
  · refine .inr ⟨h1, .inl ⟨j, hj, ?_⟩⟩
    have hji : j ≠ i := fun hji => hx (hji ▸ hjo)
    rw [Function.update_of_ne hji, hjo]
  · refine .inr ⟨h1, .inr ⟨marked hm, fun j hj => ?_⟩⟩
    by_cases hji : j = i
    · rw [hji, Function.update_self]
      exact ⟨hqc hm, hq⟩
    · rw [Function.update_of_ne hji]
      exact hno j hj

theorem Once.tally_ordered (h : Once calls sigId first x) (hi : (calls i).sigId = sigId)
    (checked : stage calls x i = .checked) (moved : stage calls x' = Function.update (stage calls x) i .ordered)
    (count : orders calls sigId x' = orders calls sigId x + 1) : Tally calls sigId first x' := by
  rcases h.tally with ⟨h0, _⟩ | ⟨_, ⟨j, hj, hjo⟩ | ⟨_, hno⟩⟩
  · refine .inr ⟨by rw [count, h0], .inl ⟨i, hi, ?_⟩⟩
    rw [moved, Function.update_self]
  · have hij := h.alone hi hj (by simp [Stage.inside, checked]) (by simp [Stage.inside, hjo])
    rw [← hij, checked] at hjo
    cases hjo
  · exact absurd checked (hno i hi).1

theorem Once.tally_recorded (h : Once calls sigId first x) (hi : (calls i).sigId = sigId)
    (ordered : stage calls x i = .ordered) (moved : stage calls x' = Function.update (stage calls x) i .done)
    (count : orders calls sigId x' = orders calls sigId x) (marked : Marked sigId first x') :
    Tally calls sigId first x' := by
  rcases h.tally with ⟨_, hno⟩ | ⟨h1, _⟩
  · exact absurd ordered (hno i hi)
  refine .inr ⟨by rw [count, h1], .inr ⟨marked, fun j hj => ?_⟩⟩
  rw [moved]
  by_cases hji : j = i
  · rw [hji, Function.update_self]
    exact ⟨by simp, by simp⟩
  · have houtside : ∀ q, stage calls x j = q → q.inside → False := by
      intro q hq hinside
      exact hji (h.alone hj hi (hq ▸ hinside) (by simp [Stage.inside, ordered]))
    rw [Function.update_of_ne hji]
    exact ⟨fun hq => houtside _ hq (by simp [Stage.inside]), fun hq => houtside _ hq (by simp [Stage.inside])⟩

theorem tally_step (h : Once calls sigId first x) (hi : (calls i).sigId = sigId)
    (hs : OrderStep calls sigId first x i x') : Tally calls sigId first x' := by
  cases hs with
  | kept same count marked => exact h.tally.congr (fun j _ => congrFun same j) count marked
  | entered outside moved count marked =>
      exact h.tally.moved (by simp [outside]) (by simp) (by simp) moved count marked
  | checked entered moved count unmarked =>
      exact h.tally.moved (by simp [entered]) (by simp) (fun hm => absurd hm unmarked) moved count
        (fun hm => absurd hm unmarked)
  | finished unordered moved count marked =>
      exact h.tally.moved unordered (by simp) (by simp) moved count marked
  -- the one step that counts: no order came before it, as a mark would have ended the call
  | ordered checked moved count => exact h.tally_ordered hi checked moved count
  | recorded ordered moved count marked => exact h.tally_recorded hi ordered moved count marked

end Tally

theorem once_step (h : Once calls sigId first x) (hd : OrderDisciplined calls x)
    (hl : LockDisciplined (calls i).symbol x)
    (ha : AtMostOne (calls i).symbol (step (handler S) x (i, c)))
    (hw : Within calls sigId S first x i c) (hr : Recorded calls sigId x i c) (hp : Apart calls sigId x i) :
    Once calls sigId first (step (handler S) x (i, c)) := by
  refine ⟨fun j hj hq => ?_, fun j k hj hk hhj hhk => ?_, ?_⟩
  · by_cases hji : j = i
    · subst hji
      exact linked_step hd j c (h.linked j hj) hq
    · rw [stage_step_ne hji] at hq
      rw [heldSince_step_ne hji]
      exact h.linked j hj hq
  · by_cases hji : j = i
    · subst hji
      exact (solo_step h hl ha hp hj hk hhj hhk).symm
    · by_cases hki : k = i
      · subst hki
        exact solo_step h hl ha hp hk hj hhk hhj
      · rw [heldSince_step_ne hji] at hhj
        rw [heldSince_step_ne hki] at hhk
        exact h.solo j k hj hk hhj hhk
  · by_cases hi : (calls i).sigId = sigId
    · exact tally_step h hi (order_step hd hi hw hr)
    · obtain ⟨hcount, hmarked⟩ : orders calls sigId (step (handler S) x (i, c)) = orders calls sigId x ∧
        (Marked sigId first x → Marked sigId first (step (handler S) x (i, c))) := other_step hd hi
      exact h.tally.congr (fun j hj => stage_step_ne (fun hji => hi (hji ▸ hj))) hcount hmarked

theorem Once.orders_le_one (h : Once calls sigId first x) : orders calls sigId x ≤ 1 := by
  rcases h.tally with ⟨h0, _⟩ | ⟨h1, _⟩
  · exact h0.le.trans (Nat.zero_le 1)
  · exact h1.le

/-- With every order of the signal recorded, redelivery executes no second one. -/
theorem executed_at_most_once (S : Setting) (calls : ι → Call) (sigId : String) (first : ℚ) (w : World)
    (ls : List (ι × Env))
    (hlock : ∀ i, Along (handler S) (Timely S (calls i).symbol) (begin calls w) ls)
    (hwithin : Along (handler S) (Within calls sigId S first) (begin calls w) ls)
    (hrecorded : Along (handler S) (fun x i c => Recorded calls sigId x i c ∧ Apart calls sigId x i)
      (begin calls w) ls) :
    Always (handler S) (fun x => orders calls sigId x ≤ 1) (begin calls w) ls := by
  have hstep : ∀ (x : Calls ι) (l : ι × Env), (Once calls sigId first x ∧ OrderDisciplined calls x ∧
        ∀ j, LockKept (calls j).symbol x) →
      ((∀ j, Timely S (calls j).symbol x l.1 l.2) ∧ Within calls sigId S first x l.1 l.2 ∧
        Recorded calls sigId x l.1 l.2 ∧ Apart calls sigId x l.1) →
      Once calls sigId first (step (handler S) x l) ∧ OrderDisciplined calls (step (handler S) x l) ∧
        ∀ j, LockKept (calls j).symbol (step (handler S) x l) := by
    rintro x ⟨i, c⟩ ⟨ho, hd, hl⟩ ⟨ht, hw, hr, hp⟩
    have hl' := fun j => lockKept_step (hl j) (ht j)
    exact ⟨once_step ho hd (hl i).disciplined (hl' i).exclusive hw hr hp, disciplined_step _ _ hd i c, hl'⟩
  have hbegin : Once calls sigId first (begin calls w) ∧ OrderDisciplined calls (begin calls w) ∧
      ∀ j, LockKept (calls j).symbol (begin calls w) :=
    ⟨once_begin calls sigId first w, disciplined_start (fun i => call_follows_order (calls i)) w,
      fun j => lockKept_begin (calls j).symbol calls w⟩
  exact (alwaysRun_of_step hstep hbegin ((alongRun_forall hlock).and (hwithin.and hrecorded))).mono
    (fun x h => h.1.orders_le_one)

def redelivered : Bool → Call := fun _ => .buy "BTCUSDT" "regime_trend" "sig-1" 30000

/-- The first delivery runs to its end, the second one meets the mark. -/
def recordedRun : List (Bool × Env) :=
  List.replicate 10 (false, Env.trading) ++ List.replicate 3 (true, Env.trading)

theorem executed_at_most_once_redelivered :
    Always (handler defaults) (fun x => orders redelivered "sig-1" x ≤ 1) (begin redelivered World.empty)
      recordedRun :=
  executed_at_most_once defaults redelivered "sig-1" 0 World.empty recordedRun (by decide +kernel)
    (by decide +kernel) (by decide +kernel)

/-- The trade of the first delivery cannot be written, so nothing marks the signal. -/
def unrecordedRun : List (Bool × Env) :=
  List.replicate 5 (false, Env.trading) ++ (false, { Env.trading with fault := .lost }) :: (false, Env.trading) ::
    List.replicate 5 (true, Env.trading)

theorem lost_trade_executes_twice :
    (∀ i, Along (handler defaults) (Timely defaults (redelivered i).symbol) (begin redelivered World.empty)
      unrecordedRun) ∧
    Along (handler defaults) (Within redelivered "sig-1" defaults 0) (begin redelivered World.empty)
      unrecordedRun ∧
    ¬ Always (handler defaults) (fun x => orders redelivered "sig-1" x ≤ 1) (begin redelivered World.empty)
      unrecordedRun :=
  ⟨by decide +kernel, by decide +kernel, fun h => absurd h.last (by decide +kernel)⟩

end Autr.Services.SignalOnce
