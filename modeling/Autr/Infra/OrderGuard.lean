import Autr.Async.Protocol
import Autr.Infra.OrderAttempts

namespace Autr.Infra.OrderGuard

open Autr.Async Bybit OrderAttempts

def getLinearFilledQty (symbol orderId : String) (requestedQty : ℚ) : Client ℚ :=
  Prog.attempt
    (do
      let _ ← Prog.perform (.sleep (1 / 2))
      let response ← call (.getOrderHistory .linear symbol orderId)
      if response.retCode = 0 then
        match response.result with
        | order :: _ => return if 0 < order.cumExecQty then order.cumExecQty else requestedQty
        | [] => return requestedQty
      else return requestedQty)
    (fun _ => return requestedQty)

def placeLinearOrder (cfg : Config) (symbol : String) (side : Side) (qty : ℚ) (reduceOnly : Bool) :
    Client OrderResult :=
  if !cfg.authenticated then return .failure .noApiKey
  else
    Prog.attempt
      (do
        let _ ← getCurrentPrice symbol
        let response ← call (.placeOrder ⟨.linear, symbol, side, "Market", qty, reduceOnly⟩)
        if response.retCode = 0 then
          let filledQty ← getLinearFilledQty symbol response.result qty
          return .success response.result filledQty
        else return .failure (.rejected response.retMsg))
      (fun e => return .failure (.exception e))

/-- A call of one of the two ways to order. -/
inductive Request
  | spot (symbol : String) (side : Side) (orderType : String) (qty : Option ℚ)
  | linear (symbol : String) (side : Side) (qty : ℚ) (reduceOnly : Bool)

def Request.run (cfg : Config) : Request → Client OrderResult
  | .spot symbol side orderType qty => placeOrder cfg symbol side orderType qty
  | .linear symbol side qty reduceOnly => placeLinearOrder cfg symbol side qty reduceOnly

/-- What a coroutine has seen: the last quote, if it was answered, the orders it has
submitted, and whether the last of them is not to be tried again. -/
structure Progress where
  price : Option ℚ
  sent : List OrderRequest
  settled : Bool

def quoted : Except Exc (Response (List ℚ)) → Option ℚ
  | .ok response => if response.retCode = 0 then response.result.head? else none
  | .error _ => none

def retried {α : Type} : Except Exc α → Bool
  | .ok _ => false
  | .error e => isRetryableException e

def Progress.next (q : Progress) : (op : Http) → Except Exc (Http.Res op) → Progress
  | .getTickers _ _, r => { q with price := quoted r }
  | .placeOrder req, r => { q with sent := req :: q.sent, settled := !retried r }
  | _, _ => q

/-- The quantity given to the call, or one that `calculate_safe_order_size` can answer. -/
def Chosen (cfg : Config) (symbol : String) (side : Side) (qty : Option ℚ) (q : ℚ) : Prop :=
  qty = some q ∨ qty = none ∧ ∃ price b, safeOrderSize cfg symbol side price b = some q

/-- An order that is the one of the call; on the spot market the price read last makes it
worth no less than the minimum and, when it buys, no more than the maximum. -/
def Request.Fits (cfg : Config) (price : Option ℚ) (req : OrderRequest) : Request → Prop
  | .spot symbol side orderType qty => ∃ p q, price = some p ∧ req = ⟨.spot, symbol, side, orderType, q, false⟩ ∧
      Chosen cfg symbol side qty q ∧ cfg.minOrderSize ≤ q * p ∧ (side = .buy → q * p ≤ cfg.maxTradeAmount)
  | .linear symbol side qty reduceOnly => req = ⟨.linear, symbol, side, "Market", qty, reduceOnly⟩

structure Permitted (cfg : Config) (o : Request) (q : Progress) (req : OrderRequest) : Prop where
  authenticated : cfg.authenticated = true
  fits : o.Fits cfg q.price req
  attempt : q.sent.length < maxAttempts
  same : ∀ req' ∈ q.sent, req' = req
  unsettled : q.settled = false

def orders (cfg : Config) (o : Request) : Protocol Http Http.Res Exc Progress where
  start := ⟨none, [], false⟩
  next q _ op r := q.next op r
  allows q op := match op with
    | .placeOrder req => Permitted cfg o q req
    | _ => True
  final _ := True

section Retries

variable {S α : Type} {Φ : Spec Http Http.Res Exc S} {op : Http} {I : ℕ → S → Prop}
  {Q : Except Exc (Http.Res op) → S → Prop}

/-- By induction on the attempts that are left; a condition `I` indexed by them stands before each. -/
theorem callFrom_wp (hΦ : Φ.Mono) (hsleep : ∀ t s R, (∀ r, R r s) → Φ (.sleep t) s R)
    (hop : ∀ n s, I n s → Φ op s (fun r s' => Q r s' ∧
      ∀ m, n = m + 1 → retried r = true → I m s' ∧ ∀ e, Q (.error e) s'))
    (left : ℕ) {s : S} (hs : I left s) : (callFrom op left).wp Φ Q s := by
  induction left generalizing s with
  | zero =>
      rw [callFrom, Prog.wp_perform]
      exact hΦ op s _ _ (fun r s' h => h.1) (hop 0 s hs)
  | succ left ih =>
      rw [callFrom, Prog.wp_attempt, Prog.wp_perform]
      refine hΦ op s _ _ (fun r s' h => ?_) (hop (left + 1) s hs)
      cases r with
      | ok a => exact h.1
      | error e =>
          change Prog.wp Φ (if isRetryableException e then _ else _) Q s'
          split
          · next hretry =>
              obtain ⟨hnext, herror⟩ := h.2 left rfl hretry
              rw [Prog.wp_bind, Prog.wp_perform]
              refine hsleep _ s' _ (fun r => ?_)
              cases r with
              | ok _ => exact ih hnext
              | error e => exact herror e
          · exact h.1

end Retries

variable {cfg : Config} {o : Request}

theorem orders_sleep (t : ℚ) (q : Progress) (R : Except Exc Unit → Progress → Prop) (h : ∀ r, R r q) :
    (orders cfg o).spec (.sleep t) q R :=
  ⟨trivial, fun _ r => h r⟩

/-- No order yet, and none that was answered. -/
def Progress.Fresh (q : Progress) : Prop := q.sent = [] ∧ q.settled = false

theorem quiet_wp {α : Type} {I : Progress → Prop}
    (hI : ∀ op q r, Quiet op → I q → I (q.next op r)) {p : Client α} (hp : p.Uses Quiet) {q : Progress} (hq : I q) :
    p.wp (orders cfg o).spec (fun _ q' => I q') q := by
  refine Prog.wp_of_uses (orders cfg o).spec_mono (fun op q hop hq => ⟨?_, fun _ r => hI op q r hop hq⟩) p hp q hq
  cases op with
  | placeOrder _ => exact hop.elim
  | _ => trivial

theorem fresh_next (op : Http) (q : Progress) (r : Except Exc (Http.Res op)) (hop : Quiet op) (hq : q.Fresh) :
    (q.next op r).Fresh := by
  cases op with
  | placeOrder _ => exact hop.elim
  | _ => exact hq

theorem getBalance_quiet (cfg : Config) : (getBalance cfg).Uses Quiet := by
  rw [getBalance]
  split
  · refine Prog.uses_attempt (Prog.uses_bind (call_quiet trivial) (fun response => ?_)) (fun _ => trivial)
    split
    · split <;> trivial
    · trivial
  · trivial

theorem getLinearFilledQty_quiet (symbol orderId : String) (qty : ℚ) :
    (getLinearFilledQty symbol orderId qty).Uses Quiet := by
  refine Prog.uses_attempt (Prog.uses_bind (Prog.uses_perform trivial) (fun _ =>
    Prog.uses_bind (call_quiet trivial) (fun response => ?_))) (fun _ => trivial)
  split
  · split <;> trivial
  · trivial

/-- The price is the one just quoted; a read that fails answers zero. -/
theorem getCurrentPrice_wp (symbol : String) {q : Progress} (hq : q.Fresh) :
    (getCurrentPrice symbol).wp (orders cfg o).spec
      (fun r q' => q'.Fresh ∧ ∀ p, r = .ok p → p = 0 ∨ q'.price = some p) q := by
  rw [getCurrentPrice, Prog.wp_attempt, Prog.wp_bind]
  have hcall : (call (.getTickers .spot symbol)).wp (orders cfg o).spec
      (fun r q' => q'.Fresh ∧ ∀ response, r = .ok response → q'.price = quoted (.ok response)) q := by
    refine callFrom_wp (I := fun _ q => q.Fresh) (orders cfg o).spec_mono orders_sleep (fun n s hs => ?_) _ hq
    refine ⟨trivial, fun t r => ⟨⟨hs, fun response hr => hr ▸ rfl⟩, fun m _ _ => ⟨hs, fun e => ⟨hs, nofun⟩⟩⟩⟩
  refine Prog.wp_mono (orders cfg o).spec_mono _ (fun r q' h => ?_) q hcall
  have hzero : q'.Fresh ∧ ∀ p, (Except.ok 0 : Except Exc ℚ) = .ok p → p = 0 ∨ q'.price = some p :=
    ⟨h.1, fun p hp => .inl (Except.ok.inj hp).symm⟩
  cases r with
  | error e => exact hzero
  | ok response =>
      have hprice := h.2 response rfl
      change Prog.wp _ (if response.retCode = 0 then _ else _) _ q'
      split
      · next hcode =>
          rw [quoted, if_pos hcode] at hprice
          split
          · next price rest hresult =>
              rw [hresult] at hprice
              exact ⟨h.1, fun p hp => .inr (Except.ok.inj hp ▸ hprice)⟩
          · exact hzero
      · exact hzero

/-- Up to five attempts at one order that is permitted before the first. -/
theorem attempts_wp {req : OrderRequest} {q : Progress} (hq : q.Fresh) (hauth : cfg.authenticated = true)
    (hfits : o.Fits cfg q.price req) :
    (call (.placeOrder req)).wp (orders cfg o).spec (fun _ _ => True) q := by
  refine callFrom_wp (I := fun n s => s.price = q.price ∧ s.settled = false ∧ (∀ req' ∈ s.sent, req' = req) ∧
    s.sent.length + n < maxAttempts) (orders cfg o).spec_mono orders_sleep (fun n s hs => ?_) _ ?_
  · obtain ⟨hprice, hopen, hsame, hcount⟩ := hs
    refine ⟨⟨hauth, hprice ▸ hfits, by omega, hsame, hopen⟩, fun t r => ⟨trivial, fun m hm hr => ?_⟩⟩
    refine ⟨⟨hprice, ?_, ?_, ?_⟩, fun _ => trivial⟩
    · exact congrArg not hr
    · exact List.forall_mem_cons.2 ⟨rfl, hsame⟩
    · change s.sent.length + 1 + m < maxAttempts
      omega
  · exact ⟨rfl, hq.2, by simp [hq.1], by simp [hq.1, maxAttempts]⟩

theorem quiet_true {α : Type} {p : Client α} (hp : p.Uses Quiet) (q : Progress) :
    p.wp (orders cfg o).spec (fun _ _ => True) q :=
  quiet_wp (I := fun _ => True) (fun _ _ _ _ _ => trivial) hp trivial

theorem orderGuard_none {side : Side} {qty price : ℚ} (h : orderGuard cfg side qty price = none) :
    cfg.minOrderSize ≤ qty * price ∧ (side = .buy → qty * price ≤ cfg.maxTradeAmount) := by
  simp only [orderGuard] at h
  split_ifs at h with hmax hmin
  exact ⟨not_lt.1 hmin, fun hside => not_lt.1 (fun hlt => hmax ⟨hside, hlt⟩)⟩

theorem submitOrder_follows (hmin : 0 < cfg.minOrderSize) {symbol orderType : String} {side : Side} {qty : Option ℚ}
    {x : ℚ} (hx : Chosen cfg symbol side qty x) {q : Progress} (hq : q.Fresh) :
    (orders cfg (.spot symbol side orderType qty)).Follows q (submitOrder cfg symbol side orderType x) := by
  rw [Protocol.Follows, submitOrder]
  split
  · have hread := Prog.uses_bind (f := fun _ => pure (OrderResult.failure .noApiKey)) (getCurrentPrice_quiet symbol)
      (fun _ => trivial)
    exact quiet_true hread q
  · next hauth =>
      rw [Prog.wp_attempt, Prog.wp_bind]
      refine Prog.wp_mono (orders cfg _).spec_mono _ (fun r q hr => ?_) q (getCurrentPrice_wp symbol hq)
      cases r with
      | error e => trivial
      | ok price =>
          rw [Prog.out_ok]
          cases hg : orderGuard cfg side x price with
          | some error => trivial
          | none =>
              obtain ⟨hlow, hhigh⟩ := orderGuard_none hg
              have hprice : q.price = some price := (hr.2 price rfl).resolve_left (fun h0 => by
                rw [h0, mul_zero] at hlow
                exact absurd hmin (not_lt.2 hlow))
              rw [Prog.wp_bind]
              refine Prog.wp_mono (orders cfg _).spec_mono _ (fun r q _ => ?_) q
                (attempts_wp hr.1 (by simpa using hauth)
                ⟨price, x, hprice, rfl, hx, hlow, hhigh⟩)
              cases r with
              | error e => trivial
              | ok response =>
                  rw [Prog.out_ok]
                  split
                  · rw [Prog.wp_bind]
                    refine Prog.wp_mono (orders cfg _).spec_mono _ (fun r q _ => ?_) q
                      (quiet_true (getFilledQty_quiet symbol response.result x) q)
                    cases r <;> trivial
                  · trivial

theorem placeLinearOrder_follows (cfg : Config) (symbol : String) (side : Side) (qty : ℚ) (reduceOnly : Bool)
    {q : Progress} (hq : q.Fresh) :
    (orders cfg (.linear symbol side qty reduceOnly)).Follows q (placeLinearOrder cfg symbol side qty reduceOnly) := by
  rw [Protocol.Follows, placeLinearOrder]
  split
  · trivial
  · next hauth =>
      rw [Prog.wp_attempt, Prog.wp_bind]
      refine Prog.wp_mono (orders cfg _).spec_mono _ (fun r q hr => ?_) q (getCurrentPrice_wp symbol hq)
      cases r with
      | error e => trivial
      | ok price =>
          rw [Prog.out_ok, Prog.wp_bind]
          refine Prog.wp_mono (orders cfg _).spec_mono _ (fun r q _ => ?_) q
            (attempts_wp hr.1 (by simpa using hauth) rfl)
          cases r with
          | error e => trivial
          | ok response =>
              rw [Prog.out_ok]
              split
              · rw [Prog.wp_bind]
                refine Prog.wp_mono (orders cfg _).spec_mono _ (fun r q _ => ?_) q
                  (quiet_true (getLinearFilledQty_quiet symbol response.result qty) q)
                cases r <;> trivial
              · trivial

theorem request_follows (hmin : 0 < cfg.minOrderSize) (o : Request) :
    (orders cfg o).Follows (orders cfg o).start (o.run cfg) := by
  have hfresh : (orders cfg o).start.Fresh := ⟨rfl, rfl⟩
  cases o with
  | linear symbol side qty reduceOnly => exact placeLinearOrder_follows cfg symbol side qty reduceOnly hfresh
  | spot symbol side orderType qty =>
      cases qty with
      | some x => exact submitOrder_follows hmin (.inl rfl) hfresh
      | none =>
          rw [Request.run, placeOrder, Protocol.Follows, Prog.wp_bind, calculateSafeOrderSize, Prog.wp_bind]
          refine Prog.wp_mono (orders cfg _).spec_mono _ (fun r q hq => ?_) _
            (quiet_wp fresh_next (getCurrentPrice_quiet symbol) hfresh)
          cases r with
          | error e => trivial
          | ok price =>
              rw [Prog.out_ok]
              split
              · trivial
              · rw [Prog.wp_bind]
                refine Prog.wp_mono (orders cfg _).spec_mono _ (fun r q hq => ?_) _
                  (quiet_wp fresh_next (getBalance_quiet cfg) hq)
                cases r with
                | error e => trivial
                | ok b =>
                    rw [Prog.out_ok, Prog.wp_pure, Prog.out_ok]
                    cases hsize : safeOrderSize cfg symbol side price b with
                    | none => trivial
                    | some x => exact submitOrder_follows hmin (.inr ⟨rfl, price, b, hsize⟩) hq

variable {ι W C : Type} [DecidableEq ι]

/-- Whatever the exchange answers and however the calls interleave, an order about to be
submitted is the one its call was made for, is worth between the two limits at the last
price this call has read when it is a spot order, and repeats an attempt only after a
failure that may be tried again, up to the fifth. -/
theorem orders_permitted (hmin : 0 < cfg.minOrderSize) (requests : ι → Request) (h : Handler Http Http.Res Exc W C)
    (w : W) (ls : List (ι × C)) (i : ι) (req : OrderRequest)
    (hnext : ((runs h (start (fun i => (requests i).run cfg) w) ls).task i).next = some (.placeOrder req)) :
    Permitted cfg (requests i)
      (phase (orders cfg (requests i)) i (runs h (start (fun i => (requests i).run cfg) w) ls).trace) req :=
  (always_obeys (fun i => request_follows hmin (requests i)) h w ls).last i _ hnext

deriving instance DecidableEq for Http

/-- A buy whose quantity is given beside one whose quantity is calculated, at a quote of 30000. -/
def twoBuys : Bool → Request
  | true => .spot "BTCUSDT" .buy "Market" (some (1 / 2000))
  | false => .spot "BTCUSDT" .buy "Market" none

theorem orders_permitted_retry :
    Permitted defaultConfig (twoBuys true)
      (phase (orders defaultConfig (twoBuys true)) true
        (runs (exchange lostThenAnswered) (start (fun i => (twoBuys i).run defaultConfig) Exchange.start)
          [(true, ()), (false, ()), (true, ()), (false, ()), (true, ())]).trace)
      ⟨.spot, "BTCUSDT", .buy, "Market", 1 / 2000, false⟩ :=
  orders_permitted (by decide +kernel) twoBuys _ _ _ true _ (by decide +kernel)

end Autr.Infra.OrderGuard
