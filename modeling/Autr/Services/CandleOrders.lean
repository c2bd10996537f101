import Autr.Services.SignalOnce
import Autr.Services.SignalPipeline

namespace Autr.Services.CandleOrders

open Autr.Async Autr.Infra Bybit TradeTracker StrategyConsumer SignalOnce SignalPipeline

def NoOrder (op : Op) : Prop := op.isSpotOrder = false

def accepts (op : Op) (r : Except Exc op.Res) : Bool :=
  match op, r with
  | .submitOrder _ _ _, .ok (.success _ _) => true
  | _, _ => false

/-- Once an order of the program is accepted, it places no other. -/
def OrdersOnce {α : Type} : Svc α → Prop
  | .pure _ | .raise _ => True
  | .call op k => ∀ r, if accepts op r = true then (k r).Uses NoOrder else OrdersOnce (k r)

def identity (d : Decided) : Identity := ⟨d.message.strategy, d.message.symbol, d.message.side, d.candle⟩

/-- The executor consumer takes no signal whose strategy, symbol, side and candle have been
ordered already. -/
def TakesNew (x : Pipeline) (l : Label) : Prop :=
  match l with
  | .pop _ _ => x.task.next = none → ∀ d ∈ x.queue.head?.join, identity d ∉ x.orders
  | _ => True

/-- The iteration under way places no more orders, or is the first to order its signal. -/
inductive Standing (x : Pipeline) : Prop
  | spent (task : x.task.Uses NoOrder)
  | first (d : Decided) (taken : x.taken = some d) (once : OrdersOnce x.task) (placed : x.task.Uses (PlacedFor d))
      (new : identity d ∉ x.orders)

section Once

variable {α β : Type}

theorem accepts_of_noOrder {op : Op} (h : NoOrder op) (r : Except Exc op.Res) : accepts op r = false := by
  cases op <;> first | rfl | cases h

theorem once_of_noOrder {p : Svc α} (h : p.Uses NoOrder) : OrdersOnce p := by
  induction p with
  | pure a | raise e => trivial
  | call op k ih =>
      intro r
      rw [if_neg (by simp [accepts_of_noOrder h.1 r])]
      exact ih r (h.2 r)

theorem once_bind_of_noOrder {p : Svc α} {f : α → Svc β} (hp : p.Uses NoOrder) (hf : ∀ a, OrdersOnce (f a)) :
    OrdersOnce (p >>= f) := by
  induction p with
  | pure a => exact hf a
  | raise e => trivial
  | call op k ih =>
      intro r
      rw [if_neg (by simp [accepts_of_noOrder hp.1 r])]
      exact ih r (hp.2 r)

theorem once_bind {p : Svc α} {f : α → Svc β} (hp : OrdersOnce p) (hf : ∀ a, (f a).Uses NoOrder) :
    OrdersOnce (p >>= f) := by
  induction p with
  | pure a => exact once_of_noOrder (hf a)
  | raise e => trivial
  | call op k ih =>
      intro r
      have hr := hp r
      split
      · next ha =>
          rw [if_pos ha] at hr
          exact Prog.uses_bind hr hf
      · next ha =>
          rw [if_neg ha] at hr
          exact ih r hr

variable {symbol sigId : String}

theorem next_spent {q : Stage} (hq : q = .ordered ∨ q = .done) {op : Op}
    (hallows : (orderProtocol symbol sigId).allows q op) (t : ℚ) (r : Except Exc op.Res) :
    (orderProtocol symbol sigId).next q t op r = .ordered ∨ (orderProtocol symbol sigId).next q t op r = .done := by
  rcases hq with rfl | rfl
  · cases op with
    | acquireLock | get | releaseLock => cases hallows
    | submitOrder => exact hallows.elim
    | set => exact .inr rfl
    | insertTrade =>
        rcases r with e | u
        · exact .inr rfl
        · exact .inl rfl
    | _ => exact .inl rfl
  · cases op with
    | acquireLock | get | set => cases hallows
    | submitOrder => exact hallows.elim
    | insertTrade => rcases r with e | u <;> exact .inr rfl
    | _ => exact .inr rfl

/-- Past its order or past everything, a call places no order. -/
theorem noOrder_of_follows {p : Svc α} {q : Stage} (hq : q = .ordered ∨ q = .done)
    (h : (orderProtocol symbol sigId).Follows q p) : p.Uses NoOrder := by
  induction p generalizing q with
  | pure a | raise e => trivial
  | call op k ih =>
      obtain ⟨hallows, hnext⟩ := h
      refine ⟨?_, fun r => ?_⟩
      · rcases hq with rfl | rfl <;> cases op <;> first | rfl | exact hallows.elim
      · exact ih r (next_spent hq hallows 0 r) (hnext 0 r)

theorem once_of_follows {p : Svc α} {q : Stage} (h : (orderProtocol symbol sigId).Follows q p) : OrdersOnce p := by
  induction p generalizing q with
  | pure a | raise e => trivial
  | call op k ih =>
      obtain ⟨_, hnext⟩ := h
      intro r
      split
      · next ha =>
          refine noOrder_of_follows (.inl ?_) (hnext 0 r)
          unfold accepts at ha
          split at ha
          · rfl
          · cases ha
      · exact ih r (hnext 0 r)

theorem serve_noOrder (S : Setting) (heartbeat : Bool) (due : Option String) :
    (serve S heartbeat due none).Uses NoOrder :=
  serve_uses S heartbeat due none (fun _ h => h.1) (fun _ h => nomatch h)

theorem serve_once (S : Setting) (heartbeat : Bool) (due : Option String) (d : Decided) :
    OrdersOnce (serve S heartbeat due (some d)) := by
  have hcall : OrdersOnce (executeSignal (some d)) :=
    once_bind (once_of_follows (call_follows_order (PositionFlag.callOf d.message))) (fun _ => trivial)
  refine once_bind_of_noOrder ((recordHeartbeat_orderless heartbeat).mono (fun _ h => h.1)) (fun _ => ?_)
  exact once_bind_of_noOrder ((periodicReconcile_orderless S due).mono (fun _ h => h.1)) (fun _ => hcall)

end Once

theorem orderOf_of_not_accepts {op : Op} {r : Except Exc op.Res} (h : accepts op r = false) (taken : Option Decided) :
    SignalPipeline.orderOf taken op r = none := by
  unfold SignalPipeline.orderOf
  split
  · cases h
  · rfl

theorem orderOf_of_accepts {op : Op} {r : Except Exc op.Res} (h : accepts op r = true) {d : Decided}
    (hplaced : PlacedFor d op) : SignalPipeline.orderOf (some d) op r = some (identity d) := by
  unfold accepts at h
  split at h
  · obtain ⟨rfl, rfl⟩ := hplaced
    rfl
  · cases h

variable {S : Setting} {x : Pipeline}

theorem serve_placed (S : Setting) (heartbeat : Bool) (due : Option String) (d : Decided) :
    (serve S heartbeat due (some d)).Uses (PlacedFor d) := by
  refine serve_uses S heartbeat due (some d) ?_ ?_
  · intro op h
    cases op with
    | submitOrder => cases h.1
    | _ => trivial
  · rintro d' hd'
    cases hd'
    exact callOf_placed d

theorem answer_standing (hx : x.orders.Nodup ∧ Standing x) (c : Env) :
    (x.answer S c).orders.Nodup ∧ Standing (x.answer S c) := by
  obtain ⟨hnodup, hstanding⟩ := hx
  unfold Pipeline.answer
  split
  next op k htask =>
    dsimp only
    cases hstanding with
    | spent task =>
        rw [htask] at task
        rw [orderOf_of_not_accepts (accepts_of_noOrder task.1 _)]
        exact ⟨hnodup, .spent (task.2 _)⟩
    | first d taken once placed new =>
        rw [htask] at once placed
        have hr := once (exec S op c x.world).1
        split at hr
        · next ha =>
            rw [taken, orderOf_of_accepts ha placed.1]
            exact ⟨List.nodup_cons.2 ⟨new, hnodup⟩, .spent hr⟩
        · next ha =>
            rw [orderOf_of_not_accepts (eq_false_of_ne_true ha)]
            exact ⟨hnodup, .first d taken hr (placed.2 _) new⟩
  · exact ⟨hnodup, hstanding⟩

theorem moved_standing (hx : Standing x) {x' : Pipeline} (htask : x'.task = x.task) (htaken : x'.taken = x.taken)
    (horders : x'.orders = x.orders) : Standing x' := by
  cases hx with
  | spent task => exact .spent (htask ▸ task)
  | first d taken once placed new =>
      exact .first d (htaken.trans taken) (htask ▸ once) (htask ▸ placed) (horders ▸ new)

theorem step_standing (hx : x.orders.Nodup ∧ Standing x) (l : Label) (hl : TakesNew x l) :
    (x.step S l).orders.Nodup ∧ Standing (x.step S l) := by
  cases l with
  | answered c => exact answer_standing hx c
  | pop heartbeat due =>
      simp only [Pipeline.step]
      split
      · next hidle =>
          refine ⟨hx.1, ?_⟩
          cases hraw : x.queue.head?.join with
          | none => exact .spent (serve_noOrder S heartbeat due)
          | some d =>
              exact .first d rfl (serve_once S heartbeat due d) (serve_placed S heartbeat due d) (hl hidle d hraw)
      · exact hx
  | startTrading | stopTrading | restart | surroundings => exact ⟨hx.1, moved_standing hx.2 rfl rfl rfl⟩
  | enable | tick | failedTick | changeStrategy | push =>
      simp only [Pipeline.step]
      split
      all_goals first | exact hx | exact ⟨hx.1, moved_standing hx.2 rfl rfl rfl⟩

/-- A signal is pushed only while no other one for its strategy, symbol, side and candle is
queued, under way or ordered. -/
def PushesNew (x : Pipeline) (l : Label) : Prop :=
  match l with
  | .push _ => ∀ d ∈ x.publishing, identity d ∉ x.orders ∧ (∀ d', some d' ∈ x.queue → identity d' ≠ identity d) ∧
      ∀ d' ∈ x.taken, identity d ≠ identity d'
  | _ => True

structure Unrepeated (x : Pipeline) : Prop where
  queue : x.queue.Pairwise (fun a b => ∀ d ∈ a, ∀ d' ∈ b, identity d ≠ identity d')
  orders : ∀ d, some d ∈ x.queue → identity d ∉ x.orders
  taken : ∀ d, some d ∈ x.queue → ∀ d' ∈ x.taken, identity d ≠ identity d'
  placed : ∀ d ∈ x.taken, x.task.Uses (PlacedFor d)

theorem orders_answer (hx : Unrepeated x) (c : Env) {i : Identity} (hi : i ∈ (x.answer S c).orders) :
    i ∈ x.orders ∨ ∃ d ∈ x.taken, identity d = i := by
  unfold Pipeline.answer at hi
  split at hi
  · next op k htask =>
      dsimp only at hi
      rcases List.mem_append.1 hi with hi | hi
      · cases htaken : x.taken with
        | none =>
            rw [htaken] at hi
            unfold SignalPipeline.orderOf at hi
            split at hi <;> cases hi
        | some d =>
            have hplaced := hx.placed d htaken
            rw [htask] at hplaced
            cases haccepts : accepts op (exec S op c x.world).1 with
            | false =>
                rw [orderOf_of_not_accepts haccepts] at hi
                cases hi
            | true =>
                rw [htaken, orderOf_of_accepts haccepts hplaced.1] at hi
                exact .inr ⟨d, rfl, (List.mem_singleton.1 hi).symm⟩
      · exact .inl hi
  · exact .inl hi

theorem answer_unrepeated (hx : Unrepeated x) (c : Env) : Unrepeated (x.answer S c) := by
  have hqueue : (x.answer S c).queue = x.queue ∧ (x.answer S c).taken = x.taken := by
    unfold Pipeline.answer
    split <;> exact ⟨rfl, rfl⟩
  refine ⟨hqueue.1 ▸ hx.queue, fun d hd hi => ?_, by rw [hqueue.1, hqueue.2]; exact hx.taken, fun d hd => ?_⟩
  · rw [hqueue.1] at hd
    rcases orders_answer hx c hi with hi | ⟨d', hd', hi⟩
    · exact hx.orders d hd hi
    · exact hx.taken d hd d' hd' hi.symm
  · rw [hqueue.2] at hd
    have hplaced := hx.placed d hd
    unfold Pipeline.answer
    split
    · next op k htask =>
        rw [htask] at hplaced
        exact hplaced.2 _
    · exact hplaced

theorem push_unrepeated (hx : Unrepeated x) (raised : Bool) (hl : PushesNew x (.push raised)) :
    Unrepeated (x.step S (.push raised)) := by
  cases hpublishing : x.publishing with
  | none => simpa only [Pipeline.step, hpublishing] using hx
  | some d =>
      simp only [Pipeline.step, hpublishing]
      cases raised with
      | true => exact ⟨hx.queue, hx.orders, hx.taken, hx.placed⟩
      | false =>
          obtain ⟨horders, hqueue, htaken⟩ := hl d hpublishing
          have happend : (x.queue ++ [some d]).Pairwise (fun a b => ∀ d ∈ a, ∀ d' ∈ b, identity d ≠ identity d') := by
            refine List.pairwise_append.2 ⟨hx.queue, List.pairwise_singleton _ _, ?_⟩
            rintro a ha b hb d₁ rfl d₂ hd₂
            obtain rfl := List.mem_singleton.1 hb
            cases hd₂
            exact hqueue d₁ ha
          refine ⟨happend.sublist (queuePush_sublist _ _), fun d' hd' => ?_, fun d' hd' => ?_, hx.placed⟩
          · rcases mem_queuePush hd' with hd' | hd'
            · exact hx.orders d' hd'
            · cases hd'
              exact horders
          · rcases mem_queuePush hd' with hd' | hd'
            · exact hx.taken d' hd'
            · cases hd'
              exact htaken

theorem pop_unrepeated (hx : Unrepeated x) (heartbeat : Bool) (due : Option String) :
    Unrepeated (x.step S (.pop heartbeat due)) := by
  simp only [Pipeline.step]
  split
  · refine ⟨hx.queue.tail, fun d hd => hx.orders d (List.mem_of_mem_tail hd), fun d hd d' hd' => ?_, fun d hd => ?_⟩
    · have hhead := Option.join_eq_some_iff.1 hd'
      obtain ⟨rest, hrest⟩ := List.head?_eq_some_iff.1 hhead
      have hqueue := hx.queue
      rw [hrest] at hqueue hd
      exact ((List.pairwise_cons.1 hqueue).1 (some d) hd d' rfl d rfl).symm
    · dsimp only at hd ⊢
      rw [hd]
      exact serve_placed S heartbeat due d
  · exact hx

theorem step_unrepeated (hx : Unrepeated x) (l : Label) (hl : PushesNew x l) : Unrepeated (x.step S l) := by
  cases l with
  | answered c => exact answer_unrepeated hx c
  | push raised => exact push_unrepeated hx raised hl
  | pop heartbeat due => exact pop_unrepeated hx heartbeat due
  | startTrading | stopTrading | restart | surroundings => exact ⟨hx.queue, hx.orders, hx.taken, hx.placed⟩
  | enable | tick | failedTick | changeStrategy =>
      simp only [Pipeline.step]
      split
      all_goals first | exact hx | exact ⟨hx.queue, hx.orders, hx.taken, hx.placed⟩

/-- With signals that are told apart as they are pushed, none is taken for what has been ordered. -/
theorem takesNew_of_pushesNew (S : Setting) {x : Pipeline} (hx : Unrepeated x) {ls : List Label}
    (hnew : AlongRun (Pipeline.step S) PushesNew x ls) : AlongRun (Pipeline.step S) TakesNew x ls := by
  refine alongRun_of_step (P := Unrepeated) (fun x l hx hl => step_unrepeated hx l hl) (fun x l hx _ => ?_) hx hnew
  cases l with
  | pop heartbeat due =>
      intro _ d hd
      exact hx.orders d (List.mem_of_mem_head? (Option.join_eq_some_iff.1 hd))
  | _ => trivial

theorem uses_of_idle {α : Type} {p : Svc α} {P : Op → Prop} (h : p.next = none) : p.Uses P := by
  cases p with
  | pure a | raise e => trivial
  | call op k => cases h

theorem once_of_takesNew (hx : x.orders = []) (hidle : x.task.next = none) (ls : List Label)
    (hnew : AlongRun (Pipeline.step S) TakesNew x ls) : AlwaysRun (Pipeline.step S) (fun x => x.orders.Nodup) x ls := by
  refine AlwaysRun.mono (fun x hx => hx.1) (alwaysRun_of_step (P := fun x => x.orders.Nodup ∧ Standing x)
    (fun x l hx hl => step_standing hx l hl) ⟨?_, .spent (uses_of_idle hidle)⟩ hnew)
  rw [hx]
  exact List.nodup_nil

/-- The signal that a tick publishes, if it turns the flag of the consumer over. -/
def published (x : Pipeline) : Label → Option Decided
  | .tick t candle =>
      if x.publishing.isNone then (processTick { t with enabled := x.enabled } x.consumer).2.map (⟨·, candle⟩)
      else none
  | _ => none

/-- The pipeline, and the turns its consumer has made so far, the newest first. -/
structure Watched where
  pipeline : Pipeline
  turns : List Identity

def watch (S : Setting) (y : Watched) (l : Label) : Watched where
  pipeline := y.pipeline.step S l
  turns := ((published y.pipeline l).map identity).toList ++ y.turns

/-- A tick that turns the flag sees a candle on which the strategy has not turned it before,
or only just now, and then no restart has put the flag back since. -/
def TurnsNew (y : Watched) (l : Label) : Prop :=
  ∀ d ∈ published y.pipeline l,
    (∀ t ∈ y.turns.tail, t.strategy = d.message.strategy → t.candle ≠ d.candle) ∧
    ∀ t ∈ y.turns.head?, t.strategy = d.message.strategy → t.candle = d.candle →
      y.pipeline.consumer.inPosition = decide (t.side = .buy)

instance (y : Watched) (l : Label) : Decidable (TurnsNew y l) :=
  inferInstanceAs (Decidable (∀ d ∈ published y.pipeline l,
    (∀ t ∈ y.turns.tail, _ → _) ∧ ∀ t ∈ y.turns.head?, _ → _ → _))

theorem published_cases {l : Label} {d : Decided} (h : d ∈ published x l) :
    x.publishing = none ∧ (x.step S l).publishing = some d ∧ d.message.side = turning x.consumer.inPosition ∧
      (x.step S l).consumer.inPosition = !x.consumer.inPosition := by
  cases l with
  | tick t candle =>
      rw [published] at h
      cases hpublishing : x.publishing with
      | some d' =>
          rw [hpublishing] at h
          cases h
      | none =>
          rw [hpublishing, Option.isNone_none, if_pos rfl] at h
          obtain ⟨m, hm, rfl⟩ := Option.map_eq_some_iff.1 h
          rcases processTick_cases { t with enabled := x.enabled } x.consumer with
            ⟨hnone, -⟩ | ⟨m', hsome, -, hside, hflag⟩
          · rw [hnone] at hm
            cases hm
          · obtain rfl := Option.some.inj (hsome.symm.trans hm)
            simp only [Pipeline.step, hpublishing, hsome]
            exact ⟨trivial, rfl, hside, hflag⟩
  | _ => cases h

/-- A turn on the candle of the last one goes the other way. -/
theorem turn_new {y : Watched} {l : Label} {d : Decided} (hl : TurnsNew y l) (hd : d ∈ published y.pipeline l) :
    identity d ∉ y.turns := by
  intro hmem
  obtain ⟨htail, hhead⟩ := hl d hd
  have hside := (published_cases (S := defaults) hd).2.2.1
  cases hturns : y.turns with
  | nil =>
      rw [hturns] at hmem
      cases hmem
  | cons t ts =>
      rw [hturns] at hmem htail hhead
      rcases List.mem_cons.1 hmem with hlast | hearlier
      · have hflag := hhead t rfl (by rw [← hlast]; rfl) (by rw [← hlast]; rfl)
        rw [← hlast] at hflag
        change _ = decide (d.message.side = .buy) at hflag
        rw [hside] at hflag
        cases hup : y.pipeline.consumer.inPosition <;> simp [hup, turning] at hflag
      · exact htail (identity d) hearlier rfl rfl

/-- A signal with the identity is queued, under way or ordered. -/
def Seen (x : Pipeline) (i : Identity) : Prop :=
  i ∈ x.orders ∨ (∃ d, some d ∈ x.queue ∧ identity d = i) ∨ ∃ d ∈ x.taken, identity d = i

/-- The turns whose signals have left the consumer. -/
def sent (y : Watched) : List Identity := if y.pipeline.publishing.isSome then y.turns.tail else y.turns

/-- Whatever is seen stems from a turn, and the signal being published from the last one,
which repeats none. -/
structure Recorded (y : Watched) : Prop where
  seen : ∀ i, Seen y.pipeline i → i ∈ sent y
  publishing : ∀ d ∈ y.pipeline.publishing, ∃ earlier, y.turns = identity d :: earlier ∧ identity d ∉ earlier

theorem seen_step (hx : Unrepeated x) {l : Label} {i : Identity} (hi : Seen (x.step S l) i) :
    Seen x i ∨ (x.step S l).publishing = none ∧ ∃ d ∈ x.publishing, identity d = i := by
  cases l with
  | answered c =>
      obtain ⟨hqueue, htaken⟩ : (x.answer S c).queue = x.queue ∧ (x.answer S c).taken = x.taken := by
        unfold Pipeline.answer
        split <;> exact ⟨rfl, rfl⟩
      left
      rcases hi with hi | hi | hi
      · rcases orders_answer hx c hi with hi | hi
        · exact .inl hi
        · exact .inr (.inr hi)
      · rw [Pipeline.step, hqueue] at hi
        exact .inr (.inl hi)
      · rw [Pipeline.step, htaken] at hi
        exact .inr (.inr hi)
  | push raised =>
      cases hpublishing : x.publishing with
      | none =>
          simp only [Pipeline.step, hpublishing] at hi
          exact .inl hi
      | some d =>
          simp only [Pipeline.step, hpublishing] at hi ⊢
          rcases hi with hi | ⟨d', hd', hi⟩ | hi
          · exact .inl (.inl hi)
          · cases raised with
            | true => exact .inl (.inr (.inl ⟨d', hd', hi⟩))
            | false =>
                rcases mem_queuePush hd' with hd' | hd'
                · exact .inl (.inr (.inl ⟨d', hd', hi⟩))
                · cases hd'
                  exact .inr ⟨trivial, d, rfl, hi⟩
          · exact .inl (.inr (.inr hi))
  | pop heartbeat due =>
      left
      simp only [Pipeline.step] at hi
      split at hi
      · rcases hi with hi | ⟨d, hd, hi⟩ | ⟨d, hd, hi⟩
        · exact .inl hi
        · exact .inr (.inl ⟨d, List.mem_of_mem_tail hd, hi⟩)
        · exact .inr (.inl ⟨d, List.mem_of_mem_head? (Option.join_eq_some_iff.1 hd), hi⟩)
      · exact hi
  | startTrading | stopTrading | restart | surroundings => exact .inl hi
  | enable | tick | failedTick | changeStrategy =>
      left
      simp only [Pipeline.step] at hi
      split at hi
      all_goals exact hi

theorem publishing_step {l : Label} (h : published x l = none) :
    (x.step S l).publishing = none ∨ (x.step S l).publishing = x.publishing := by
  cases l with
  | tick t candle =>
      cases hpublishing : x.publishing with
      | some d =>
          simp only [Pipeline.step, hpublishing]
          exact .inr trivial
      | none =>
          rw [published, hpublishing, Option.isNone_none, if_pos rfl] at h
          simp only [Pipeline.step, hpublishing]
          exact .inl h
  | restart => exact .inl rfl
  | push raised =>
      left
      cases hpublishing : x.publishing <;> simp only [Pipeline.step, hpublishing]
  | answered c =>
      right
      simp only [Pipeline.step, Pipeline.answer]
      split <;> rfl
  | startTrading | stopTrading | surroundings => exact .inr rfl
  | enable | failedTick | changeStrategy | pop =>
      right
      simp only [Pipeline.step]
      split <;> rfl

theorem sent_of_none {y : Watched} (h : y.pipeline.publishing = none) : sent y = y.turns := by
  rw [sent, h]
  rfl

theorem mem_turns_of_sent {y : Watched} {i : Identity} (hi : i ∈ sent y) : i ∈ y.turns := by
  rw [sent] at hi
  split at hi
  · exact List.mem_of_mem_tail hi
  · exact hi

theorem recorded_turn {y : Watched} (hrepeat : Unrepeated y.pipeline) (hy : Recorded y) {l : Label} {d : Decided}
    (hl : TurnsNew y l) (hd : published y.pipeline l = some d) : Recorded (watch S y l) := by
  obtain ⟨hnone, hsome, -, -⟩ := published_cases (S := S) hd
  have hturns : (watch S y l).turns = identity d :: y.turns := by rw [watch, hd]; rfl
  have hsent : sent (watch S y l) = sent y := by
    rw [sent, hturns, sent, hnone]
    exact congrArg (fun p : Option Decided => if p.isSome then y.turns else identity d :: y.turns) hsome
  refine ⟨fun i hi => ?_, fun d' hd' => ⟨y.turns, ?_, ?_⟩⟩
  · rw [hsent]
    rcases seen_step hrepeat hi with hi | ⟨hgone, -⟩
    · exact hy.seen i hi
    · rw [hsome] at hgone
      cases hgone
  all_goals
    obtain rfl := Option.some.inj (hsome.symm.trans hd')
  · exact hturns
  · exact turn_new hl hd

theorem recorded_watch {y : Watched} (hrepeat : Unrepeated y.pipeline) (hy : Recorded y) {l : Label}
    (hl : TurnsNew y l) : Recorded (watch S y l) := by
  cases hd : published y.pipeline l with
  | some d => exact recorded_turn hrepeat hy hl hd
  | none =>
      have hturns : (watch S y l).turns = y.turns := by rw [watch, hd]; rfl
      refine ⟨fun i hi => ?_, fun d hpublishing => ?_⟩
      · rcases seen_step hrepeat hi with hi | ⟨hgone, d, hpublishing, rfl⟩
        · rcases publishing_step (S := S) hd with hgone | hsame
          · rw [sent_of_none hgone, hturns]
            exact mem_turns_of_sent (hy.seen i hi)
          · have hsent : sent (watch S y l) = sent y := by rw [sent, sent, hturns, watch, hsame]
            rw [hsent]
            exact hy.seen i hi
        · obtain ⟨earlier, hlast, -⟩ := hy.publishing d hpublishing
          rw [sent_of_none hgone, hturns, hlast]
          exact List.mem_cons_self
      · rw [hturns]
        rcases publishing_step (S := S) hd with hgone | hsame
        · exact absurd (hgone.symm.trans hpublishing) (Option.some_ne_none d).symm
        · exact hy.publishing d (hsame.symm.trans hpublishing)

theorem pushesNew_of_recorded {y : Watched} (hy : Recorded y) (l : Label) : PushesNew y.pipeline l := by
  cases l with
  | push raised =>
      intro d hd
      obtain ⟨earlier, hlast, hnew⟩ := hy.publishing d hd
      have hsent : sent y = earlier := by rw [sent, Option.mem_def.1 hd, hlast]; rfl
      have hunseen : ¬ Seen y.pipeline (identity d) := fun hi => hnew (hsent ▸ hy.seen _ hi)
      exact ⟨fun hi => hunseen (.inl hi), fun d' hd' he => hunseen (.inr (.inl ⟨d', hd', he⟩)),
        fun d' hd' he => hunseen (.inr (.inr ⟨d', hd', he.symm⟩))⟩
  | _ => trivial

/-- Nothing is published, queued or under way, and nothing has been ordered. -/
structure Untouched (x : Pipeline) : Prop where
  publishing : x.publishing = none
  queue : x.queue = []
  taken : x.taken = none
  idle : x.task.next = none
  orders : x.orders = []

theorem Untouched.unrepeated (hx : Untouched x) : Unrepeated x := by
  refine ⟨?_, ?_, ?_, fun _ _ => uses_of_idle hx.idle⟩
  all_goals rw [hx.queue]
  · exact List.Pairwise.nil
  · exact fun d hd => absurd hd List.not_mem_nil
  · exact fun d hd => absurd hd List.not_mem_nil

theorem Untouched.recorded (hx : Untouched x) : Recorded ⟨x, []⟩ := by
  refine ⟨?_, fun d hd => absurd (hx.publishing.symm.trans hd) (Option.some_ne_none d).symm⟩
  rintro i (hi | ⟨d, hd, -⟩ | ⟨d, hd, -⟩)
  · exact absurd (hx.orders ▸ hi) List.not_mem_nil
  · exact absurd (hx.queue ▸ hd) List.not_mem_nil
  · exact absurd (hx.taken.symm.trans hd) (Option.some_ne_none d).symm

theorem pushesNew_of_turnsNew (S : Setting) (hx : Untouched x) {ls : List Label}
    (hturns : AlongRun (watch S) TurnsNew ⟨x, []⟩ ls) : AlongRun (Pipeline.step S) PushesNew x ls := by
  refine (alongRun_map (f := Watched.pipeline) (fun _ _ => rfl)).1 (alongRun_of_step
    (P := fun y => Unrepeated y.pipeline ∧ Recorded y) (fun y l hy hl => ⟨?_, ?_⟩) (fun y l hy _ => ?_)
    ⟨hx.unrepeated, hx.recorded⟩ hturns)
  · exact step_unrepeated hy.1 l (pushesNew_of_recorded hy.2 l)
  · exact recorded_watch hy.1 hy.2 hl
  · exact pushesNew_of_recorded hy.2 l

/-- A restart reads back from the table the flag that it loses: the executor has done what
the last signal asked for. No tick turns the flag on a candle of a turn before the last. -/
def CaughtUp (y : Watched) (l : Label) : Prop :=
  match l with
  | .restart strategy cooldownBars restored =>
      (restarted strategy cooldownBars restored y.pipeline.consumer.symbol y.pipeline.world).inPosition =
        y.pipeline.consumer.inPosition
  | _ => ∀ d ∈ published y.pipeline l, ∀ t ∈ y.turns.tail, t.strategy = d.message.strategy → t.candle ≠ d.candle

/-- The flag is as the last turn has left it. -/
def FlagKept (y : Watched) : Prop := ∀ t ∈ y.turns.head?, y.pipeline.consumer.inPosition = decide (t.side = .buy)

theorem flagKept_watch {y : Watched} (hy : FlagKept y) {l : Label} (hl : CaughtUp y l) : FlagKept (watch S y l) := by
  cases hd : published y.pipeline l with
  | some d =>
      obtain ⟨-, -, hside, hflag⟩ := published_cases (S := S) hd
      have hturns : (watch S y l).turns = identity d :: y.turns := by rw [watch, hd]; rfl
      intro t ht
      rw [hturns] at ht
      obtain rfl := Option.some.inj ht
      refine hflag.trans ?_
      change _ = decide (d.message.side = .buy)
      rw [hside]
      cases y.pipeline.consumer.inPosition <;> rfl
  | none =>
      have hturns : (watch S y l).turns = y.turns := by rw [watch, hd]; rfl
      have hsame : (y.pipeline.step S l).consumer.inPosition = y.pipeline.consumer.inPosition := by
        cases l with
        | restart strategy cooldownBars restored => exact hl
        | tick t candle =>
            cases hpublishing : y.pipeline.publishing with
            | some d => simp only [Pipeline.step, hpublishing]
            | none =>
                rw [published, hpublishing, Option.isNone_none, if_pos rfl, Option.map_eq_none_iff] at hd
                simp only [Pipeline.step, hpublishing]
                rcases processTick_cases { t with enabled := y.pipeline.enabled } y.pipeline.consumer with
                  ⟨-, hflag⟩ | ⟨m, hsome, -⟩
                · exact hflag
                · rw [hd] at hsome
                  cases hsome
        | answered c =>
            simp only [Pipeline.step, Pipeline.answer]
            split <;> rfl
        | startTrading | stopTrading | surroundings => rfl
        | enable | failedTick | changeStrategy | pop | push =>
            simp only [Pipeline.step]
            split <;> rfl
      intro t ht
      rw [hturns] at ht
      exact hsame.trans (hy t ht)

/-- Where the executor has caught up at each restart, and each candle sees the flag turned
at most there and back, the turns are new. -/
theorem turnsNew_of_caughtUp (S : Setting) (x : Pipeline) {ls : List Label}
    (hcaught : AlongRun (watch S) CaughtUp ⟨x, []⟩ ls) : AlongRun (watch S) TurnsNew ⟨x, []⟩ ls := by
  refine alongRun_of_step (P := FlagKept) (fun y l hy hl => flagKept_watch hy hl) (fun y l hy hl => ?_)
    (fun t ht => nomatch ht) hcaught
  intro d hd
  refine ⟨?_, fun t ht _ _ => hy t ht⟩
  cases l with
  | tick => exact hl d hd
  | _ => cases hd

/-- Where the flag is turned on a candle only anew, or there and back within one life of the
consumer, a strategy orders a symbol on one side at most once for a candle. -/
theorem ordered_once (S : Setting) (x : Pipeline) (hx : Untouched x) (ls : List Label)
    (hturns : AlongRun (watch S) TurnsNew ⟨x, []⟩ ls) :
    AlwaysRun (Pipeline.step S) (fun x => x.orders.Nodup) x ls :=
  once_of_takesNew hx.orders hx.idle ls (takesNew_of_pushesNew S hx.unrepeated (pushesNew_of_turnsNew S hx hturns))

def heldRow : Position := (Executor.longPosition "BTCUSDT" 30000 1).row "a" 1

def oneHeld : World :=
  { World.empty with positions := ⟨[heldRow], by simp⟩, wallet := fun coin => if coin = "BTC" then 1 else 0 }

/-- A consumer that has restored its one position, with nothing on its way. -/
def restored : Pipeline where
  enabled := true
  starting := 0
  stopped := false
  consumer := restarted "ema" 0 true "BTCUSDT" oneHeld
  publishing := none
  queue := []
  taken := none
  task := pure ()
  world := oneHeld
  orders := []

def sellDecision : Decision := ⟨.sell, "cross", 30000, none, none⟩

def sellTick (stamp : String) : Tick := ⟨some sellDecision, true, none, stamp⟩

/-- Half of an order is filled. -/
def halfFilled : Env := { Env.trading with available := fun _ => 1, reply := .accepted "order-1" (1 / 2) true }

theorem restored_untouched : Untouched restored := ⟨rfl, rfl, rfl, rfl, rfl⟩

def buyDecision : Decision := ⟨.buy, "cross", 30000, some 29000, none⟩

/-- Sold and, after a restart, bought on one candle. -/
def soldAndBought : List Label :=
  [.tick (sellTick "20240101000000-1") 7, .push false, .pop true none] ++ List.replicate 14 (.answered halfFilled) ++
    [.restart "ema" 0 true, .tick ⟨some buyDecision, true, none, "20240101000100-2"⟩ 7, .push false,
      .pop false none] ++ List.replicate 14 (.answered Env.trading)

theorem ordered_once_soldAndBought :
    AlwaysRun (Pipeline.step defaults) (fun x => x.orders.Nodup) restored soldAndBought ∧
    (soldAndBought.foldl (Pipeline.step defaults) restored).orders.map Identity.side = [.buy, .sell] :=
  ⟨ordered_once defaults restored restored_untouched soldAndBought (by decide +kernel), by decide +kernel⟩

/-- The consumer is restarted before its signal is executed, finds the position still open
and decides the same again. -/
theorem ordered_twice : ¬ ∀ (S : Setting) (x : Pipeline) (ls : List Label), Untouched x →
    AlwaysRun (Pipeline.step S) (fun x => x.orders.Nodup) x ls := by
  intro h
  have hlast := (h defaults restored
    ([.tick (sellTick "20240101000000-1") 7, .push false, .restart "ema" 0 true,
      .tick (sellTick "20240101000100-2") 7, .push false, .pop false none] ++
      List.replicate 13 (.answered halfFilled) ++ [.pop false none] ++ List.replicate 5 (.answered halfFilled))
      restored_untouched).last
  revert hlast
  decide +kernel

end Autr.Services.CandleOrders
