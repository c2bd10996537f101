import Autr.Async.Protocol
import Autr.Services.FundingArbConsumer

namespace Autr.Services.ShortBound

open Autr.Async Autr.Infra Bybit Decimal Strategies.FundingArb Executor FundingArbExecutor FundingArbConsumer

variable (p : Params)

/-- What a cycle has learnt so far: the funding rate, the price, whether it counts as flat. -/
inductive Phase
  | idle
  | rated (rate : ℚ)
  | priced (rate price : ℚ)
  | seen (rate price : ℚ) (flat : Bool)
  | sold

def readsFlat : Except Exc (Option LinearPosition) → Bool
  | .ok position => perpSize position ≤ 0
  | .error _ => true

/-- A status that cannot be read counts as flat. -/
def Phase.doubt : Phase → Phase
  | .seen rate price _ => .seen rate price true
  | q => q

def arbProtocol : Protocol Op Op.Res Exc Phase where
  start := .idle
  next q _ op r := match op, r, q with
    | .get _, _, _ => .idle
    | .getLinearTicker _, .ok (some ticker), .idle => .rated ticker.fundingRate
    | .getLinearTicker _, .error _, q => q.doubt
    | .getWalletBalance, .error _, q => q.doubt
    | .getCurrentPrice _, .ok price, .rated rate => .priced rate price
    | .getLinearPositions _, r, .priced rate price => .seen rate price (readsFlat r)
    | .placeLinearOrder _ .sell _ _, _, _ => .sold
    | _, _, q => q
  allows q op := match op with
    | .placeLinearOrder symbol .sell qty reduceOnly =>
        symbol = p.symbol ∧ reduceOnly = false ∧
          ∃ rate price, q = .seen rate price true ∧ opens p [rate] = true ∧ calcQty p price = some qty
    | .placeLinearOrder symbol .buy qty reduceOnly => symbol = p.symbol ∧ reduceOnly = true ∧ 0 ≤ qty
    | .getLinearPositions symbol => symbol = p.symbol
    | _ => True
  final _ := True

def Free : Op → Prop
  | .placeLinearOrder _ .sell _ _ => False
  | .placeLinearOrder symbol .buy qty reduceOnly => symbol = p.symbol ∧ reduceOnly = true ∧ 0 ≤ qty
  | .getLinearPositions symbol => symbol = p.symbol
  | _ => True

variable {dumps : CycleState → String} {p}

theorem wp_of_free {α : Type} {prog : Svc α} (h : prog.Uses (Free p)) (q : Phase) :
    prog.wp (arbProtocol p).spec (fun _ _ => True) q := by
  refine Prog.wp_of_uses (arbProtocol p).spec_mono (I := fun _ => True)
    (fun op q hop _ => ⟨?_, fun _ _ => trivial⟩) prog h q trivial
  cases op with
  | placeLinearOrder symbol side qty reduceOnly => cases side <;> first | exact hop | exact hop.elim
  | getLinearPositions symbol => exact hop
  | _ => trivial

theorem sellSpot_free (qty : ℚ) (reason : Reason) (perpFilled : ℚ) :
    (sellSpot p.symbol qty reason perpFilled).Uses (Free p) := by
  refine Prog.uses_bind (Prog.uses_perform trivial) (fun result => ?_)
  cases result <;> exact Prog.uses_bind (Prog.uses_perform trivial) (fun _ => trivial)

theorem closeLegs_free {qty : ℚ} (hq : 0 ≤ qty) (reason : Reason) :
    (closeLegs p.symbol qty reason).Uses (Free p) := by
  refine Prog.uses_bind (Prog.uses_perform ⟨rfl, rfl, hq⟩) (fun result => ?_)
  cases result with
  | failure error => exact Prog.uses_bind (Prog.uses_perform trivial) (fun _ => trivial)
  | success _ perpFilled => exact sellSpot_free qty reason perpFilled

theorem closeSection_free (reason : Reason) : (closeSection p reason).Uses (Free p) := by
  refine Prog.uses_bind (Prog.uses_perform rfl) (fun position => ?_)
  split
  · trivial
  · next h => exact closeLegs_free (roundTo_nonneg _ (not_le.1 h).le) reason

theorem buySpot_free {qty : ℚ} (hq : 0 ≤ qty) (spotPrice perpPrice : ℚ) (perpOrderId : String) (perpFilled : ℚ) :
    (buySpot p.symbol qty spotPrice perpPrice perpOrderId perpFilled).Uses (Free p) := by
  refine Prog.uses_bind (Prog.uses_perform trivial) (fun result => ?_)
  cases result with
  | failure error =>
      refine Prog.uses_bind (Prog.uses_perform ⟨rfl, rfl, hq⟩) (fun rollback => ?_)
      exact Prog.uses_bind (Prog.uses_perform trivial) (fun _ => trivial)
  | success => exact Prog.uses_bind (Prog.uses_perform trivial) (fun _ => trivial)

theorem withLock_free {body : Svc FundingArbExecutor.Outcome} (h : body.Uses (Free p)) :
    (FundingArbExecutor.withLock p.symbol body).Uses (Free p) := by
  refine Prog.uses_bind (Prog.uses_perform trivial) (fun acquired => ?_)
  cases acquired with
  | true => exact Prog.uses_ensure h (Prog.uses_perform trivial)
  | false => trivial

theorem writeState_free (state : CycleState) : (writeState dumps state).Uses (Free p) :=
  Prog.uses_perform trivial

theorem openLegs_follows {rate price qty : ℚ} (hopens : opens p [rate] = true) (hqty : calcQty p price = some qty)
    (spotPrice perpPrice : ℚ) :
    (openLegs p.symbol qty spotPrice perpPrice).wp (arbProtocol p).spec (fun _ _ => True)
      (.seen rate price true) := by
  rw [openLegs, Prog.wp_bind, placeLinearOrder, Prog.wp_perform]
  refine ⟨⟨rfl, rfl, rate, price, rfl, hopens, hqty⟩, fun t r => ?_⟩
  rcases r with e | ⟨perpOrderId, perpFilled⟩ | error
  · trivial
  · exact wp_of_free (buySpot_free (calcQty_pos hqty).le spotPrice perpPrice perpOrderId perpFilled) _
  · refine wp_of_free ?_ _
    exact Prog.uses_bind (Prog.uses_perform trivial) (fun _ => trivial)

theorem openPosition_follows {rate price : ℚ} (hopens : opens p [rate] = true) (perpPrice : ℚ) :
    (openPosition p price perpPrice).wp (arbProtocol p).spec (fun _ _ => True) (.seen rate price true) := by
  rw [openPosition, FundingArbExecutor.withLock, Prog.wp_bind, Prog.wp_perform]
  refine ⟨trivial, fun t r => ?_⟩
  rcases r with e | _ | _
  · trivial
  · trivial
  rw [Prog.out_ok, if_pos rfl]
  have hrelease : (await (.releaseLock (Redis.fundingArbLock p.symbol))).Uses (Free p) :=
    Prog.uses_perform trivial
  refine Prog.wp_ensure_of (arbProtocol p).spec_mono ?_ (fun q' _ => wp_of_free hrelease q')
  rw [openSection, Prog.wp_bind, Prog.wp_perform]
  refine ⟨trivial, fun t' r' => ?_⟩
  rcases r' with e | _
  · trivial
  rw [Prog.out_ok]
  cases hqty : calcQty p price with
  | none => trivial
  | some qty => exact openLegs_follows hopens hqty price perpPrice

theorem getArbStatus_follows (rate price : ℚ) :
    (getArbStatus p).wp (arbProtocol p).spec
      (Prog.out (fun status q => status.inPosition = false → q = .seen rate price true) (fun _ _ => False))
      (.priced rate price) := by
  rw [getArbStatus, Prog.wp_attempt, Prog.wp_bind, Prog.wp_perform]
  refine ⟨rfl, fun t position => ?_⟩
  rcases position with e | position
  · exact fun _ => rfl
  rw [Prog.out_ok, Prog.wp_bind, Prog.wp_perform]
  refine ⟨trivial, fun t' wallet => ?_⟩
  rcases wallet with e | wallet
  · exact fun _ => rfl
  rw [Prog.out_ok, Prog.wp_bind, Prog.wp_perform]
  refine ⟨trivial, fun t'' ticker => ?_⟩
  rcases ticker with e | ticker
  · exact fun _ => rfl
  intro hflat
  have hsize : perpSize position ≤ 0 := by simpa [statusOf, Status.inPosition] using hflat
  have hreads : readsFlat (.ok position) = true := by simpa [readsFlat] using hsize
  cases ticker with
  | none => simp [arbProtocol, hreads]
  | some ticker => simp [arbProtocol, hreads]

theorem execute_follows {rate price perpPrice : ℚ} {status : Status} {q : Phase}
    (hq : status.inPosition = false → q = .seen rate price true) :
    (execute p (decide p [rate] price perpPrice status.inPosition status.marginRatio) price perpPrice).wp
      (arbProtocol p).spec (fun _ _ => True) q := by
  cases hsignal : (decide p [rate] price perpPrice status.inPosition status.marginRatio).signal with
  | «open» =>
      obtain ⟨hflat, hopens⟩ := (decide_open_iff p [rate] price perpPrice _ _).1 hsignal
      rw [hq hflat, execute, hsignal]
      exact Prog.wp_map_of (arbProtocol p).spec_mono (openPosition_follows hopens perpPrice)
  | close | emergencyClose =>
      rw [execute, hsignal]
      refine wp_of_free ?_ q
      exact Prog.uses_bind (withLock_free (closeSection_free _)) (fun _ => trivial)
  | hold =>
      rw [execute, hsignal]
      trivial

theorem trade_follows (count : ℕ) (ticker : Ticker) :
    (trade dumps p count ticker).wp (arbProtocol p).spec (fun _ _ => True) (.rated ticker.fundingRate) := by
  rw [trade, Prog.wp_bind, currentPriceOf, Prog.wp_perform]
  refine ⟨trivial, fun t r => ?_⟩
  rcases r with e | spotPrice
  · trivial
  rw [Prog.out_ok, Prog.wp_bind]
  refine Prog.wp_mono (arbProtocol p).spec_mono _ (fun r q hq => ?_) _
    (getArbStatus_follows ticker.fundingRate spotPrice)
  cases r with
  | error e => exact hq.elim
  | ok status =>
      exact Prog.wp_bind_of (arbProtocol p).spec_mono (execute_follows hq)
        (fun _ q' _ => wp_of_free (writeState_free _) q')

theorem cycle_follows (count : ℕ) (q : Phase) :
    (cycle dumps p count).wp (arbProtocol p).spec (fun _ _ => True) q := by
  rw [cycle, Prog.wp_bind, Prog.wp_perform]
  refine ⟨trivial, fun t r => ?_⟩
  rcases r with e | enabled
  · trivial
  rw [Prog.out_ok]
  split
  · exact wp_of_free (writeState_free _) _
  rw [Prog.wp_bind, Prog.wp_perform]
  refine ⟨trivial, fun t' r' => ?_⟩
  rcases r' with e | _ | ticker
  · trivial
  · trivial
  · exact trade_follows count ticker

theorem run_follows (cycles : ℕ) : (arbProtocol p).Follows .idle (run dumps p cycles) :=
  Prog.wp_forEach_of (arbProtocol p).spec_mono (fun n q _ => Prog.wp_attempt_of (arbProtocol p).spec_mono
    (cycle_follows (n + 1) q) (fun _ q' _ => wp_of_free (writeState_free _) q')) _ trivial

abbrev Loop := Conf Unit Op Op.Res Exc World Unit

def begin (dumps : CycleState → String) (p : Params) (cycles : ℕ) (w : World) : Loop :=
  start (fun _ => run dumps p cycles) w

def phaseOf (p : Params) (x : Loop) : Phase := phase (arbProtocol p) () x.trace

/-- The quantities the openings have computed, as they were put on order. -/
def openQtys (trace : List (Event Unit Op Op.Res Exc Unit)) : List ℚ :=
  trace.filterMap (fun e => match e.op with
    | .placeLinearOrder _ .sell qty _ => some qty
    | _ => none)

def largest (qtys : List ℚ) : ℚ := qtys.foldr max 0

/-- The short held at the exchange is no larger than some quantity of an opening. -/
def Bounded (p : Params) (x : Loop) : Prop :=
  x.world.short p.symbol ≤ largest (openQtys x.trace) ∧
    ∀ qty ∈ openQtys x.trace, ∃ price, calcQty p price = some qty

def Filled (x : Loop) (i : Unit) (c : Env) : Prop := (x.task i).next.all (fillsOrder c) = true

/-- The funding rate and the price a cycle has read call for an opening. -/
def callsForOpening (p : Params) : Phase → Bool
  | .priced rate price => opens p [rate] && (calcQty p price).isSome
  | _ => false

/-- In a cycle that calls for an opening, the read of the position does not fail while a
short is held. -/
def Informed (S : Setting) (p : Params) (x : Loop) (i : Unit) (c : Env) : Prop :=
  callsForOpening p (phaseOf p x) = true → (x.task i).next = some (.getLinearPositions p.symbol) →
    0 < x.world.short p.symbol → keyedAnswer S c = true

instance (x : Loop) (i : Unit) (c : Env) : Decidable (Filled x i c) := inferInstanceAs (Decidable (_ = true))

instance (S : Setting) (p : Params) (x : Loop) (i : Unit) (c : Env) : Decidable (Informed S p x i c) :=
  inferInstanceAs (Decidable (_ → _ → _ → _))

structure ShortInv (p : Params) (x : Loop) : Prop where
  nonneg : 0 ≤ x.world.short p.symbol
  bounded : Bounded p x
  flat : ∀ rate price, phaseOf p x = .seen rate price true → opens p [rate] = true → (calcQty p price).isSome →
    x.world.short p.symbol = 0

variable {S : Setting} {c : Env} {w : World} {x : Loop}

/-- The one way into the phase that counts as flat is a position read that shows nothing:
the client lets no exception through, so that the status is never in doubt. -/
theorem next_seen {q : Phase} {t rate price : ℚ} {op : Op}
    (h : (arbProtocol p).next q t op (exec S op c w).1 = .seen rate price true) :
    q = .seen rate price true ∨ ∃ symbol, op = .getLinearPositions symbol ∧ q = .priced rate price ∧
      readsFlat (exec S (.getLinearPositions symbol) c w).1 = true := by
  cases op with
  | getLinearPositions symbol =>
      cases q with
      | priced rate' price' =>
          rw [arbProtocol] at h
          obtain ⟨rfl, rfl, hflat⟩ := Phase.seen.inj h
          exact .inr ⟨symbol, rfl, rfl, hflat⟩
      | _ => exact .inl h
  | get => cases h
  | getLinearTicker symbol =>
      have hr : (exec S (.getLinearTicker symbol) c w).1 =
        .ok (if c.answered then some c.ticker else none) := rfl
      rw [hr] at h
      cases hc : c.answered <;> cases q <;> simp_all [arbProtocol]
  | getWalletBalance => exact .inl h
  | getCurrentPrice symbol =>
      cases q with
      | rated => cases h
      | _ => exact .inl h
  | placeLinearOrder symbol side =>
      cases side with
      | sell => cases h
      | buy => exact .inl h
  | _ => exact .inl h

theorem openQtys_cons (e : Event Unit Op Op.Res Exc Unit) (tr : List (Event Unit Op Op.Res Exc Unit))
    (h : e.op.isLinearOrder = false) : openQtys (e :: tr) = openQtys tr := by
  rw [openQtys, List.filterMap_cons_none]
  · rfl
  · cases hop : e.op <;> simp_all [Op.isLinearOrder]

theorem openQtys_buy (e : Event Unit Op Op.Res Exc Unit) (tr : List (Event Unit Op Op.Res Exc Unit))
    {symbol : String} {qty : ℚ} {reduceOnly : Bool} (h : e.op = .placeLinearOrder symbol .buy qty reduceOnly) :
    openQtys (e :: tr) = openQtys tr := by
  rw [openQtys, List.filterMap_cons_none]
  · rfl
  · rw [h]

theorem openQtys_sell (e : Event Unit Op Op.Res Exc Unit) (tr : List (Event Unit Op Op.Res Exc Unit))
    {symbol : String} {qty : ℚ} {reduceOnly : Bool} (h : e.op = .placeLinearOrder symbol .sell qty reduceOnly) :
    openQtys (e :: tr) = qty :: openQtys tr := by
  rw [openQtys, List.filterMap_cons_some (b := qty)]
  · rfl
  · rw [h]

theorem executed_of_fills {qty : ℚ} (h : c.reply.fills qty = true) :
    (linearReply S c).executed = 0 ∨ (linearReply S c).executed = qty := by
  rw [Reply.executed_of_fills (linearReply_fills h)]
  split
  · exact .inr rfl
  · exact .inl rfl

theorem covered_bounds {executed short : ℚ} (hshort : 0 ≤ short) (hexec : 0 ≤ executed) :
    0 ≤ short + shortChange .buy true executed short ∧ short + shortChange .buy true executed short ≤ short := by
  have hmin : 0 ≤ min executed short := le_min hexec hshort
  have hle : min executed short ≤ short := min_le_right executed short
  simp only [shortChange, if_true, max_eq_left hshort]
  exact ⟨by linarith, by linarith⟩

theorem begin_disciplined (cycles : ℕ) (w : World) :
    Disciplined (fun _ => arbProtocol p) (begin dumps p cycles w) :=
  disciplined_start (P := fun _ => arbProtocol p) (fun _ => run_follows cycles) w

def after (S : Setting) (x : Loop) (op : Op) (c : Env) (t : ℚ) (q : Svc Unit) : Loop :=
  x.answered () t op (exec S op c x.world).1 (exec S op c x.world).2 q

section After

variable {op : Op} {t : ℚ} {q : Svc Unit}

theorem short_of_readsFlat (hx : ShortInv p x) {rate price : ℚ} (hpriced : phaseOf p x = .priced rate price)
    (hopens : opens p [rate] = true) (hqty : (calcQty p price).isSome) (hnext : (x.task ()).next = some
      (.getLinearPositions p.symbol)) (hread : Informed S p x () c)
    (hflat : readsFlat (exec S (.getLinearPositions p.symbol) c x.world).1 = true) :
    x.world.short p.symbol = 0 := by
  by_contra hne
  have hpos : 0 < x.world.short p.symbol := lt_of_le_of_ne hx.nonneg (Ne.symm hne)
  have hcalls : callsForOpening p (phaseOf p x) = true := by
    rw [hpriced, callsForOpening, hopens, hqty]
    rfl
  have hanswer := hread hcalls hnext hpos
  have hsize : |x.world.short p.symbol| ≤ 0 := by
    simpa [readsFlat, perpSize, exec, hanswer] using hflat
  exact hne (abs_nonpos_iff.1 hsize)

theorem shortInv_quiet (hx : ShortInv p x) (hallows : (arbProtocol p).allows (phaseOf p x) op)
    (hnext : (x.task ()).next = some op) (hread : Informed S p x () c) (hlinear : op.isLinearOrder = false) :
    ShortInv p (after S x op c t q) := by
  have hshort : (after S x op c t q).world.short = x.world.short := exec_short_of_ne hlinear
  refine ⟨?_, ?_, fun rate price hphase hopens hqty => ?_⟩
  · rw [hshort]
    exact hx.nonneg
  · rw [Bounded, after, openQtys_cons _ _ hlinear]
    exact ⟨(congrFun hshort p.symbol).trans_le hx.bounded.1, hx.bounded.2⟩
  · rw [hshort]
    rw [phaseOf, after, phase_cons_self] at hphase
    rcases next_seen hphase with hsame | ⟨symbol, rfl, hpriced, hflat⟩
    · exact hx.flat rate price hsame hopens hqty
    · obtain rfl : symbol = p.symbol := hallows
      exact short_of_readsFlat hx hpriced hopens hqty hnext hread hflat

theorem shortInv_sell (hx : ShortInv p x) {symbol : String} {qty : ℚ} {reduceOnly : Bool}
    (hallows : (arbProtocol p).allows (phaseOf p x) (.placeLinearOrder symbol .sell qty reduceOnly))
    (hfill : c.reply.fills qty = true) :
    ShortInv p (after S x (.placeLinearOrder symbol .sell qty reduceOnly) c t q) := by
  obtain ⟨rfl, rfl, rate, price, hphase, hopens, hqty⟩ := hallows
  have hzero : x.world.short p.symbol = 0 := hx.flat rate price hphase hopens (by rw [hqty]; rfl)
  have hpos : 0 < qty := calcQty_pos hqty
  have hafter : (after S x (.placeLinearOrder p.symbol .sell qty false) c t q).world.short
      p.symbol = (linearReply S c).executed := by
    refine (exec_placeLinearOrder_short p.symbol .sell qty false).trans ?_
    rw [hzero, zero_add]
    rfl
  have hbetween := executed_of_fills (S := S) hfill
  rw [← hafter] at hbetween
  refine ⟨?_, ⟨?_, ?_⟩, fun _ _ hsold => ?_⟩
  · rcases hbetween with h | h
    · exact h.ge
    · exact hpos.le.trans h.ge
  · rw [after, openQtys_sell _ _ rfl]
    refine le_max_of_le_left ?_
    rcases hbetween with h | h
    · exact h.le.trans hpos.le
    · exact h.le
  · rw [after, openQtys_sell _ _ rfl]
    intro qty' hmem
    rcases List.mem_cons.1 hmem with rfl | hmem
    · exact ⟨price, hqty⟩
    · exact hx.bounded.2 qty' hmem
  · rw [phaseOf, after, phase_cons_self] at hsold
    cases hsold

theorem shortInv_buy (hx : ShortInv p x) {symbol : String} {qty : ℚ} {reduceOnly : Bool}
    (hallows : (arbProtocol p).allows (phaseOf p x) (.placeLinearOrder symbol .buy qty reduceOnly))
    (hfill : c.reply.fills qty = true) :
    ShortInv p (after S x (.placeLinearOrder symbol .buy qty reduceOnly) c t q) := by
  obtain ⟨rfl, rfl, hnonneg⟩ := hallows
  have hexecuted : 0 ≤ (linearReply S c).executed := by
    rcases executed_of_fills (S := S) hfill with h | h
    · exact h.ge
    · exact hnonneg.trans h.ge
  have hafter : (after S x (.placeLinearOrder p.symbol .buy qty true) c t q).world.short
      p.symbol = x.world.short p.symbol + shortChange .buy true (linearReply S c).executed
        (x.world.short p.symbol) := exec_placeLinearOrder_short p.symbol .buy qty true
  obtain ⟨hlow, hhigh⟩ := covered_bounds hx.nonneg hexecuted
  rw [← hafter] at hlow hhigh
  refine ⟨hlow, ⟨?_, ?_⟩, fun rate price hphase hopens hqty => ?_⟩
  · rw [after, openQtys_buy _ _ rfl]
    exact hhigh.trans hx.bounded.1
  · rw [after, openQtys_buy _ _ rfl]
    exact hx.bounded.2
  · rw [phaseOf, after, phase_cons_self] at hphase
    exact le_antisymm (hhigh.trans (hx.flat rate price hphase hopens hqty).le) hlow

end After

theorem shortInv_step (hd : Disciplined (fun _ => arbProtocol p) x) (hx : ShortInv p x) {i : Unit}
    (hfill : Filled x i c) (hread : Informed S p x i c) : ShortInv p (step (handler S) x (i, c)) := by
  rcases step_cases (handler S) x i c with ⟨_, hs⟩ | ⟨op, k, hp, hs⟩
  · rw [hs]
    exact hx
  have hallows := hd.allows hp
  have hnext : (x.task i).next = some op := by rw [hp]; rfl
  rw [Filled, hnext, Option.all_some] at hfill
  rw [hs]
  cases op with
  | placeLinearOrder symbol side qty reduceOnly =>
      cases side with
      -- the protocol lets a sale through only when the cycle counts as flat
      | sell => exact shortInv_sell hx hallows hfill
      | buy => exact shortInv_buy hx hallows hfill
  | _ => exact shortInv_quiet hx hallows hnext hread rfl

/-- Starting flat, the short never exceeds the largest quantity an opening has computed,
as long as no cycle that would open overlooks a short because its read failed. -/
theorem short_bounded (S : Setting) (dumps : CycleState → String) (p : Params) (cycles : ℕ) (w : World)
    (ls : List (Unit × Env)) (hw : w.short p.symbol = 0)
    (hfill : Along (handler S) Filled (begin dumps p cycles w) ls)
    (hread : Along (handler S) (Informed S p) (begin dumps p cycles w) ls) :
    Always (handler S) (Bounded p) (begin dumps p cycles w) ls := by
  have hstart : ShortInv p (begin dumps p cycles w) :=
    ⟨hw.ge, ⟨hw.le, fun _ hmem => absurd hmem (List.not_mem_nil)⟩, fun _ _ hphase => by cases hphase⟩
  refine AlwaysRun.mono (P := fun x => Disciplined (fun _ => arbProtocol p) x ∧ ShortInv p x)
    (fun x hx => hx.2.bounded) ?_
  refine alwaysRun_of_step (fun x l hx hok => ?_) ⟨begin_disciplined cycles w, hstart⟩ (hfill.and hread)
  exact ⟨disciplined_step _ _ hx.1 l.1 l.2, shortInv_step hx.1 hx.2 hok.1 hok.2⟩

def payingShorts : Env :=
  { Env.trading with reply := .accepted "order-1" (1 / 1000) true, ticker := ⟨1 / 1000, 0, 30000⟩ }

def blind : Env := { payingShorts with answered := false }

def enabled : World :=
  { World.empty with
    redis := Function.update World.empty.redis (fundingArbEnabledKey "BTCUSDT") (some ⟨"1", none⟩) }

def twoCycles : Loop := begin (fun _ => "") defaultParams 2 enabled

theorem short_bounded_answered :
    Always (handler defaults) (Bounded defaultParams) twoCycles (List.replicate 24 ((), payingShorts)) :=
  short_bounded defaults (fun _ => "") defaultParams 2 enabled _ rfl (by decide +kernel) (by decide +kernel)

/-- The second cycle cannot read the position and opens it again. -/
theorem unread_short_doubles :
    let ls := List.replicate 16 ((), payingShorts) ++ ((), blind) :: List.replicate 9 ((), payingShorts)
    enabled.short defaultParams.symbol = 0 ∧ Along (handler defaults) Filled twoCycles ls ∧
    ¬ Always (handler defaults) (Bounded defaultParams) twoCycles ls := by
  intro ls
  refine ⟨rfl, by decide +kernel, fun h => ?_⟩
  have hlast : (runs (handler defaults) twoCycles ls).world.short "BTCUSDT" ≤
    largest (openQtys (runs (handler defaults) twoCycles ls).trace) := h.last.1
  revert hlast
  decide +kernel

end Autr.Services.ShortBound
