import Autr.Infra.Bybit

namespace Autr.Infra.OrderAttempts

open Autr.Async Bybit

inductive Broken
  | timeout
  | connection
  deriving DecidableEq

def Broken.exc : Broken → Exc
  | .timeout => .requestsTimeout
  | .connection => .requestsConnectionError

inductive Behaviour
  | acceptedAnswered (orderId : String)
  | acceptedLost (broken : Broken)
  | timedOut (broken : Broken)
  | rejected (retCode : ℤ) (retMsg : String) (h : retCode ≠ 0)

/-- The exchange over one call: its behaviour in the n-th attempt to submit an order
and its answer to the n-th other request. -/
structure Surroundings where
  attempt : ℕ → Behaviour
  read : ℕ → (op : Http) → Except Exc (Http.Res op)

structure Exchange where
  attempts : ℕ
  reads : ℕ
  accepted : List OrderRequest

def Exchange.start : Exchange := ⟨0, 0, []⟩

/-- A request without an order link id creates a new order whenever it is accepted. -/
def submit (b : Behaviour) (r : OrderRequest) (w : Exchange) : Except Exc (Response String) × Exchange :=
  match b with
  | .acceptedAnswered orderId => (.ok ⟨0, "OK", orderId⟩, { w with attempts := w.attempts + 1, accepted := r :: w.accepted })
  | .acceptedLost broken => (.error broken.exc, { w with attempts := w.attempts + 1, accepted := r :: w.accepted })
  | .timedOut broken => (.error broken.exc, { w with attempts := w.attempts + 1 })
  | .rejected retCode retMsg _ => (.ok ⟨retCode, retMsg, ""⟩, { w with attempts := w.attempts + 1 })

def exchange (env : Surroundings) : Handler Http Http.Res Exc Exchange Unit where
  exec op _ w := match op with
    | .placeOrder r => submit (env.attempt w.attempts) r w
    | .sleep _ => (.ok (), w)
    | op => (env.read w.reads op, { w with reads := w.reads + 1 })
  clock _ := 0

abbrev perform (env : Surroundings) {α : Type} (p : Client α) (w : Exchange) : Except Exc α × Exchange :=
  eval (exchange env) (fun _ => ()) p w

def Quiet : Http → Prop
  | .placeOrder _ => False
  | _ => True

theorem quiet_keeps_ledger (env : Surroundings) {α : Type} {p : Client α} (hq : p.Uses Quiet)
    (ht : p.Total) (w : Exchange) :
    ∃ a w', perform env p w = (.ok a, w') ∧ w'.attempts = w.attempts ∧ w'.accepted = w.accepted := by
  have hstep : ∀ op (s : Exchange), Quiet op → s.attempts = w.attempts ∧ s.accepted = w.accepted →
      (exchange env).spec (fun _ c _ => c = ()) op s
        (fun _ s' => s'.attempts = w.attempts ∧ s'.accepted = w.accepted) := by
    intro op s hop hs c _
    cases op <;> first | exact hop.elim | exact hs
  have hp := Prog.wp_of_uses_total ((exchange env).spec_mono _) hstep p hq ht w ⟨rfl, rfl⟩
  obtain ⟨⟨a, ha⟩, hl⟩ := (wp_eval (exchange env) (fun _ => ()) p _ w).1 hp
  exact ⟨a, _, Prod.ext ha rfl, hl⟩

theorem callFrom_quiet {op : Http} (h : Quiet op) (left : ℕ) : (callFrom op left).Uses Quiet := by
  induction left with
  | zero => exact Prog.uses_perform h
  | succ left ih =>
      refine Prog.uses_attempt (Prog.uses_perform h) (fun e => ?_)
      split
      · exact Prog.uses_bind (Prog.uses_perform trivial) (fun _ => ih)
      · trivial

theorem call_quiet {op : Http} (h : Quiet op) : (call op).Uses Quiet := callFrom_quiet h _

theorem getCurrentPrice_quiet (symbol : String) : (getCurrentPrice symbol).Uses Quiet := by
  refine Prog.uses_attempt (Prog.uses_bind (call_quiet trivial) (fun response => ?_)) (fun _ => trivial)
  split
  · split <;> trivial
  · trivial

theorem getCurrentPrice_total (symbol : String) : (getCurrentPrice symbol).Total :=
  Prog.total_attempt (fun _ => trivial)

theorem getFilledQty_quiet (symbol orderId : String) (qty : ℚ) :
    (getFilledQty symbol orderId qty).Uses Quiet := by
  refine Prog.uses_attempt (Prog.uses_bind (Prog.uses_perform trivial) (fun _ =>
    Prog.uses_bind (call_quiet trivial) (fun response => ?_))) (fun _ => trivial)
  split
  · split <;> trivial
  · trivial

theorem getFilledQty_total (symbol orderId : String) (qty : ℚ) : (getFilledQty symbol orderId qty).Total :=
  Prog.total_attempt (fun _ => trivial)

/-- No attempt among the `left + 1` next ones that is really made loses the answer to
an accepted order; an attempt is made when all those before it timed out. -/
def NoLostAnswer (attempt : ℕ → Behaviour) (first left : ℕ) : Prop :=
  ∀ i ≤ left, (∀ j < i, ∃ b, attempt (first + j) = .timedOut b) → ∀ b, attempt (first + i) ≠ .acceptedLost b

theorem noLostAnswer_zero {attempt : ℕ → Behaviour} {first left : ℕ}
    (h : NoLostAnswer attempt first left) (b : Broken) : attempt first ≠ .acceptedLost b :=
  h 0 (Nat.zero_le _) (fun _ hj => absurd hj (Nat.not_lt_zero _)) b

theorem noLostAnswer_succ {attempt : ℕ → Behaviour} {first left : ℕ} {b : Broken}
    (h : attempt first = .timedOut b) :
    NoLostAnswer attempt first (left + 1) ↔ NoLostAnswer attempt (first + 1) left := by
  constructor
  · intro hn i hi hj
    have hs := hn (i + 1) (Nat.succ_le_succ hi) (fun j hji => by
      cases j with
      | zero => exact ⟨b, h⟩
      | succ j => simpa [Nat.add_assoc, Nat.add_comm 1] using hj j (by omega))
    simpa [Nat.add_assoc, Nat.add_comm 1] using hs
  · intro hn i hi hj b'
    cases i with
    | zero => simp [h]
    | succ i =>
        have hs := hn i (Nat.le_of_succ_le_succ hi) (fun j hji => by
          simpa [Nat.add_assoc, Nat.add_comm 1] using hj (j + 1) (by omega)) b'
        simpa [Nat.add_assoc, Nat.add_comm 1] using hs

theorem noLostAnswer_of_answered {attempt : ℕ → Behaviour} {first left : ℕ}
    (ht : ∀ b, attempt first ≠ .timedOut b) (hl : ∀ b, attempt first ≠ .acceptedLost b) :
    NoLostAnswer attempt first left := by
  intro i hi hj b
  cases i with
  | zero => exact hl b
  | succ i =>
      obtain ⟨b', hb'⟩ := hj 0 (Nat.succ_pos i)
      exact absurd hb' (ht b')

def Succeeded (r : Except Exc (Response String)) : Prop := ∃ a, r = .ok a ∧ a.retCode = 0

/-- The orders the exchange accepts during the attempts: at least the one that is
reported, and exactly that many when no answer is lost. -/
structure Counted (attempt : ℕ → Behaviour) (left : ℕ) (w : Exchange)
    (r : Except Exc (Response String) × Exchange) : Prop where
  reported : Succeeded r.1 → w.accepted.length + 1 ≤ r.2.accepted.length
  kept : w.accepted.length ≤ r.2.accepted.length
  exact_iff : ((Succeeded r.1 → r.2.accepted.length = w.accepted.length + 1) ∧
    (¬ Succeeded r.1 → r.2.accepted.length = w.accepted.length)) ↔ NoLostAnswer attempt w.attempts left

theorem broken_retryable (b : Broken) : isRetryableException b.exc = true := by cases b <;> rfl

theorem counted_last (env : Surroundings) (req : OrderRequest) (w : Exchange) :
    Counted env.attempt 0 w (perform env (callFrom (.placeOrder req) 0) w) := by
  rw [callFrom, perform, eval_perform]
  cases hb : env.attempt w.attempts with
  | acceptedAnswered orderId =>
      have hn : NoLostAnswer env.attempt w.attempts 0 := noLostAnswer_of_answered (by simp [hb]) (by simp [hb])
      constructor <;> simp [exchange, submit, hb, Succeeded, hn]
  | acceptedLost b =>
      have hn : ¬ NoLostAnswer env.attempt w.attempts 0 := fun h => noLostAnswer_zero h b hb
      constructor <;> simp [exchange, submit, hb, Succeeded, hn]
  | timedOut b =>
      have hn : NoLostAnswer env.attempt w.attempts 0 := by
        intro i hi _ b'
        obtain rfl : i = 0 := Nat.le_zero.mp hi
        simp [hb]
      constructor <;> simp [exchange, submit, hb, Succeeded, hn]
  | rejected retCode retMsg h =>
      have hn : NoLostAnswer env.attempt w.attempts 0 := noLostAnswer_of_answered (by simp [hb]) (by simp [hb])
      constructor <;> simp [exchange, submit, hb, Succeeded, hn, h]

theorem callFrom_succ (env : Surroundings) (req : OrderRequest) (left : ℕ) (w : Exchange) :
    perform env (callFrom (.placeOrder req) (left + 1)) w =
      match submit (env.attempt w.attempts) req w with
      | (.ok a, w') => (.ok a, w')
      | (.error _, w') => perform env (callFrom (.placeOrder req) left) w' := by
  rw [callFrom, perform, eval_attempt, eval_perform]
  cases hb : env.attempt w.attempts <;>
    simp [exchange, submit, hb, broken_retryable, perform]

/-- By induction on the attempts that are left: an answer ends the loop, a lost answer
has raised the count beyond what can still be reported. -/
theorem callFrom_counted (env : Surroundings) (req : OrderRequest) (left : ℕ) (w : Exchange) :
    Counted env.attempt left w (perform env (callFrom (.placeOrder req) left) w) := by
  induction left generalizing w with
  | zero => exact counted_last env req w
  | succ left ih =>
      rw [callFrom_succ]
      cases hb : env.attempt w.attempts with
      | acceptedAnswered orderId =>
          have hn : NoLostAnswer env.attempt w.attempts (left + 1) :=
            noLostAnswer_of_answered (by simp [hb]) (by simp [hb])
          constructor <;> simp [submit, Succeeded, hn]
      | rejected retCode retMsg h =>
          have hn : NoLostAnswer env.attempt w.attempts (left + 1) :=
            noLostAnswer_of_answered (by simp [hb]) (by simp [hb])
          constructor <;> simp [submit, Succeeded, hn, h]
      | timedOut b =>
          have hi := ih { w with attempts := w.attempts + 1 }
          exact ⟨hi.reported, hi.kept, hi.exact_iff.trans (noLostAnswer_succ hb).symm⟩
      | acceptedLost b =>
          have hi := ih { w with attempts := w.attempts + 1, accepted := req :: w.accepted }
          have hn : ¬ NoLostAnswer env.attempt w.attempts (left + 1) := fun h => noLostAnswer_zero h b hb
          have hk := hi.kept
          have hr := hi.reported
          simp only [List.length_cons] at hk hr
          simp only [submit]
          refine ⟨fun hs => ?_, ?_, ?_⟩
          · have := hr hs; omega
          · omega
          · refine iff_of_false (fun he => ?_) hn
            by_cases hs : Succeeded (perform env (callFrom (.placeOrder req) left)
                { w with attempts := w.attempts + 1, accepted := req :: w.accepted }).1
            · have := he.1 hs; have := hr hs; omega
            · have := he.2 hs; omega

/-- There is a key, and the guard of `place_order` passes the order at the price read. -/
def Submits (env : Surroundings) (cfg : Config) (symbol : String) (side : Side) (qty : ℚ) : Prop :=
  cfg.authenticated = true ∧ ∃ price w, perform env (getCurrentPrice symbol) Exchange.start = (.ok price, w) ∧
    orderGuard cfg side qty price = none

/-- One order for a reported success, none for a reported failure. -/
def Faithful (r : Except Exc OrderResult × Exchange) : Prop :=
  ∃ result, r.1 = .ok result ∧ r.2.accepted.length = if result.isSuccess then 1 else 0

theorem submitted (env : Surroundings) (symbol : String) (req : OrderRequest) (qty : ℚ) (w : Exchange)
    (hw : w.attempts = 0) (ha : w.accepted = []) :
    Faithful (perform env (Prog.attempt
      (do
        let response ← call (.placeOrder req)
        if response.retCode = 0 then
          let filledQty ← getFilledQty symbol response.result qty
          return .success response.result filledQty
        else return .failure (.rejected response.retMsg))
      (fun e => return .failure (.exception e))) w) ↔ NoLostAnswer env.attempt 0 (maxAttempts - 1) := by
  have hc := callFrom_counted env req (maxAttempts - 1) w
  rw [← hw, ← hc.exact_iff]
  simp only [perform, call, eval_attempt, eval_bind] at hc ⊢
  rcases hr : eval (exchange env) (fun _ => ()) (callFrom (.placeOrder req) (maxAttempts - 1)) w with ⟨_ | a, w'⟩
  · simp [Faithful, OrderResult.isSuccess, Succeeded, ha]
  · by_cases h0 : a.retCode = 0
    · obtain ⟨q, w'', hq, -, hl⟩ := quiet_keeps_ledger env (getFilledQty_quiet symbol a.result qty)
        (getFilledQty_total symbol a.result qty) w'
      simp only [perform] at hq
      simp [Faithful, OrderResult.isSuccess, Succeeded, ha, h0, hq, hl]
    · simp [Faithful, OrderResult.isSuccess, Succeeded, ha, h0]

/-- `place_order` reports what the exchange accepted exactly when its guards stop the
order or none of its attempts is accepted with the answer lost. -/
theorem place_order_faithful_iff (env : Surroundings) (cfg : Config) (symbol : String) (side : Side)
    (orderType : String) (qty : ℚ) :
    Faithful (perform env (placeOrder cfg symbol side orderType (some qty)) Exchange.start) ↔
      (Submits env cfg symbol side qty → NoLostAnswer env.attempt 0 (maxAttempts - 1)) := by
  obtain ⟨price, w, hp, hw, ha⟩ := quiet_keeps_ledger env (getCurrentPrice_quiet symbol)
    (getCurrentPrice_total symbol) Exchange.start
  have hsub : Submits env cfg symbol side qty ↔
      cfg.authenticated = true ∧ orderGuard cfg side qty price = none := by
    simp [Submits, hp]
  have hrefuse : ∀ e, Faithful (.ok (.failure e), w) := fun e => ⟨_, rfl, by simp [ha, Exchange.start, OrderResult.isSuccess]⟩
  rw [hsub]
  simp only [perform] at hp
  cases hauth : cfg.authenticated with
  | false => simpa [placeOrder, submitOrder, hauth, hp] using hrefuse .noApiKey
  | true =>
      cases hguard : orderGuard cfg side qty price with
      | some e => simpa [placeOrder, submitOrder, hauth, hp, hguard] using hrefuse e
      | none =>
          have hs := submitted env symbol ⟨.spot, symbol, side, orderType, qty, false⟩ qty w hw ha
          simpa [placeOrder, submitOrder, hauth, hp, hguard] using hs

/-- A quote of 30000 and a key; the first attempt is accepted but its answer times out,
the second one is answered. -/
def lostThenAnswered : Surroundings where
  attempt n := if n = 0 then .acceptedLost .timeout else .acceptedAnswered "order-2"
  read _ op := match op with
    | .getTickers _ _ => .ok ⟨0, "OK", [30000]⟩
    | .getWalletBalance => .ok ⟨0, "OK", []⟩
    | .placeOrder _ => .error (.other "not a read")
    | .getOrderHistory _ _ _ => .ok ⟨0, "OK", []⟩
    | .sleep _ => .ok ()

def defaultConfig : Config := ⟨true, 30, 5, 80⟩

theorem lost_answer_orders_twice :
    ¬ Faithful (perform lostThenAnswered (placeOrder defaultConfig "BTCUSDT" .buy "Market" (some (1 / 2000)))
      Exchange.start) := by
  rintro ⟨result, -, hc⟩
  have hl : (perform lostThenAnswered (placeOrder defaultConfig "BTCUSDT" .buy "Market" (some (1 / 2000)))
      Exchange.start).2.accepted.length = 2 := by decide +kernel
  rw [hl] at hc
  split at hc <;> omega

end Autr.Infra.OrderAttempts
