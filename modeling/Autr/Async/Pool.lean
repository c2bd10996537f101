import Autr.Async.Program
import Autr.Async.Runs
import Mathlib.Data.Rat.Defs
import Mathlib.Logic.Function.Basic

namespace Autr.Async

/-- The meaning of a call in a shared world, given what the surroundings choose:
the delay before it takes effect, a fault, the answer of a remote party. -/
structure Handler (Op : Type) (Res : Op → Type) (Exc W C : Type) where
  exec : (op : Op) → C → W → Except Exc (Res op) × W
  clock : W → ℚ

variable {Op : Type} {Res : Op → Type} {Exc W C α : Type}

def Handler.spec (h : Handler Op Res Exc W C) (Ok : Op → C → W → Prop) : Spec Op Res Exc W :=
  fun op w Q => ∀ c, Ok op c w → Q (h.exec op c w).1 (h.exec op c w).2

theorem Handler.spec_mono (h : Handler Op Res Exc W C) (Ok : Op → C → W → Prop) :
    (h.spec Ok).Mono :=
  fun _ _ _ _ hQ hp c hc => hQ _ _ (hp c hc)

/-- One coroutine when each call is answered the same way wherever it is made. -/
def eval (h : Handler Op Res Exc W C) (f : Op → C) : Prog Op Res Exc α → W → Except Exc α × W
  | .pure a, w => (.ok a, w)
  | .raise e, w => (.error e, w)
  | .call op k, w => eval h f (k (h.exec op (f op) w).1) (h.exec op (f op) w).2

section Eval

variable {β : Type} (h : Handler Op Res Exc W C) (f : Op → C)

@[simp] theorem eval_pure (a : α) (w : W) :
    eval h f (Pure.pure a : Prog Op Res Exc α) w = (.ok a, w) := rfl

@[simp] theorem eval_perform (op : Op) (w : W) :
    eval h f (Prog.perform op) w = h.exec op (f op) w := by
  change eval h f (Prog.call op _) w = _
  rw [eval]
  rcases h.exec op (f op) w with ⟨_ | _, _⟩ <;> rfl

@[simp] theorem eval_bind (p : Prog Op Res Exc α) (g : α → Prog Op Res Exc β) (w : W) :
    eval h f (p >>= g) w = match eval h f p w with
      | (.ok a, w') => eval h f (g a) w'
      | (.error e, w') => (.error e, w') := by
  change eval h f (p.bind g) w = _
  induction p generalizing w with
  | pure a | raise e => rfl
  | call op k ih => exact ih _ _

@[simp] theorem eval_forEach_cons (g : β → Prog Op Res Exc Unit) (b : β) (bs : List β) (w : W) :
    eval h f (Prog.forEach g (b :: bs)) w = match eval h f (g b) w with
      | (.ok _, w') => eval h f (Prog.forEach g bs) w'
      | (.error e, w') => (.error e, w') := by
  change eval h f (g b >>= fun _ => Prog.forEach g bs) w = _
  rw [eval_bind]
  rcases eval h f (g b) w with ⟨_ | _, _⟩ <;> rfl

@[simp] theorem eval_attempt (p : Prog Op Res Exc α) (g : Exc → Prog Op Res Exc α) (w : W) :
    eval h f (p.attempt g) w = match eval h f p w with
      | (.ok a, w') => (.ok a, w')
      | (.error e, w') => eval h f (g e) w' := by
  induction p generalizing w with
  | pure a | raise e => rfl
  | call op k ih => exact ih _ _

@[simp] theorem eval_ensure (p : Prog Op Res Exc α) (q : Prog Op Res Exc β) (w : W) :
    eval h f (p.ensure q) w = match eval h f p w with
      | (r, w') => match eval h f q w' with
        | (.ok _, w'') => (r, w'')
        | (.error e, w'') => (.error e, w'') := by
  induction p generalizing w with
  | pure a => exact eval_bind h f q (fun _ => Prog.pure a) w
  | raise e => exact eval_bind h f q (fun _ => Prog.raise e) w
  | call op k ih => exact ih _ _

theorem eval_resume (p : Prog Op Res Exc α) (k : Except Exc α → Prog Op Res Exc β) (w : W) :
    eval h f (p.resume k) w = eval h f (k (eval h f p w).1) (eval h f p w).2 := by
  induction p generalizing w with
  | pure a | raise e => rfl
  | call op j ih => exact ih _ _

theorem eval_of_uses {γ : Type} {g : W → γ} {P : Op → Prop}
    (hg : ∀ op w, P op → g (h.exec op (f op) w).2 = g w) (p : Prog Op Res Exc α) (hp : p.Uses P) (w : W) :
    g (eval h f p w).2 = g w := by
  induction p generalizing w with
  | pure a | raise e => rfl
  | call op k ih => exact (ih _ (hp.2 _) _).trans (hg op w hp.1)

theorem eval_of_returns {P : α → Prop} (p : Prog Op Res Exc α) (hp : p.Returns P) (w : W) {a : α}
    (ha : (eval h f p w).1 = .ok a) : P a := by
  induction p generalizing w with
  | pure b => exact Except.ok.inj ha ▸ hp
  | raise e => cases ha
  | call op k ih => exact ih _ (hp _) _ ha

theorem wp_eval (p : Prog Op Res Exc α) (Q : Except Exc α → W → Prop) (w : W) :
    p.wp (h.spec (fun op c _ => c = f op)) Q w ↔ Q (eval h f p w).1 (eval h f p w).2 := by
  induction p generalizing w with
  | pure a | raise e => exact Iff.rfl
  | call op k ih => exact ⟨fun hp => (ih _ _).1 (hp _ rfl), fun hq c hc => hc ▸ (ih _ _).2 hq⟩

end Eval

section Interp

variable {Op' : Type} {Res' : Op' → Type} (h : Handler Op' Res' Exc W C) (f : Op' → C)
  (σ : (op : Op) → Prog Op' Res' Exc (Res op))

/-- Calls that stand for programs, answered as these are. -/
def Handler.via : Handler Op Res Exc W Unit where
  exec op _ w := eval h f (σ op) w
  clock := h.clock

theorem eval_interp (p : Prog Op Res Exc α) (w : W) :
    eval h f (p.interp σ) w = eval (h.via f σ) (fun _ => ()) p w := by
  induction p generalizing w with
  | pure a | raise e => rfl
  | call op k ih => exact (eval_resume h f (σ op) _ w).trans (ih _ _)

end Interp

/-- A call as it took effect, with the outcome of the coroutine if it was its last one. -/
structure Event (ι Op : Type) (Res : Op → Type) (Exc α : Type) where
  task : ι
  time : ℚ
  op : Op
  result : Except Exc (Res op)
  outcome : Option (Except Exc α)

/-- Coroutines sharing one world, interleaved at their await points. The trace has
the newest event first. -/
structure Conf (ι Op : Type) (Res : Op → Type) (Exc W α : Type) where
  world : W
  task : ι → Prog Op Res Exc α
  trace : List (Event ι Op Res Exc α)

def Prog.outcome : Prog Op Res Exc α → Option (Except Exc α)
  | .pure a => some (.ok a)
  | .raise e => some (.error e)
  | .call _ _ => none

def Prog.next : Prog Op Res Exc α → Option Op
  | .call op _ => some op
  | _ => none

variable {ι : Type} [DecidableEq ι]

/-- The configuration once a call of the task has taken effect, with what is left of the task. -/
abbrev Conf.answered (x : Conf ι Op Res Exc W α) (i : ι) (t : ℚ) (op : Op) (r : Except Exc (Res op)) (w : W)
    (p : Prog Op Res Exc α) : Conf ι Op Res Exc W α :=
  ⟨w, Function.update x.task i p, ⟨i, t, op, r, p.outcome⟩ :: x.trace⟩

def start (task : ι → Prog Op Res Exc α) (w : W) : Conf ι Op Res Exc W α := ⟨w, task, []⟩

def step (h : Handler Op Res Exc W C) (x : Conf ι Op Res Exc W α) (l : ι × C) : Conf ι Op Res Exc W α :=
  match x.task l.1 with
  | .call op k =>
      let r := h.exec op l.2 x.world
      ⟨r.2, Function.update x.task l.1 (k r.1),
        ⟨l.1, h.clock r.2, op, r.1, (k r.1).outcome⟩ :: x.trace⟩
  | _ => x

def runs (h : Handler Op Res Exc W C) (x : Conf ι Op Res Exc W α) (ls : List (ι × C)) :
    Conf ι Op Res Exc W α :=
  ls.foldl (step h) x

theorem runs_append (h : Handler Op Res Exc W C) (x : Conf ι Op Res Exc W α) (ls ls' : List (ι × C)) :
    runs h x (ls ++ ls') = runs h (runs h x ls) ls' :=
  List.foldl_append

theorem runs_concat (h : Handler Op Res Exc W C) (x : Conf ι Op Res Exc W α) (ls : List (ι × C)) (l : ι × C) :
    runs h x (ls ++ [l]) = step h (runs h x ls) l :=
  runs_append h x ls [l]

abbrev Along (h : Handler Op Res Exc W C) (Ok : Conf ι Op Res Exc W α → ι → C → Prop) :
    Conf ι Op Res Exc W α → List (ι × C) → Prop :=
  AlongRun (step h) (fun x l => Ok x l.1 l.2)

abbrev Always (h : Handler Op Res Exc W C) (P : Conf ι Op Res Exc W α → Prop) :
    Conf ι Op Res Exc W α → List (ι × C) → Prop :=
  AlwaysRun (step h) P

section Map

variable {β : Type} (f : α → β)

def Event.map (e : Event ι Op Res Exc α) : Event ι Op Res Exc β :=
  ⟨e.task, e.time, e.op, e.result, e.outcome.map (Except.map f)⟩

/-- The same pool when only something of each outcome is looked at. -/
def Conf.map (x : Conf ι Op Res Exc W α) : Conf ι Op Res Exc W β :=
  ⟨x.world, fun i => f <$> x.task i, x.trace.map (Event.map f)⟩

theorem outcome_map (p : Prog Op Res Exc α) : (f <$> p).outcome = p.outcome.map (Except.map f) := by
  cases p <;> rfl

theorem step_map (h : Handler Op Res Exc W C) (x : Conf ι Op Res Exc W α) (l : ι × C) :
    step h (x.map f) l = (step h x l).map f := by
  cases hp : x.task l.1 with
  | pure a =>
      have hp' : (x.map f).task l.1 = .pure (f a) := congrArg (f <$> ·) hp
      simp only [step, hp, hp']
  | raise e =>
      have hp' : (x.map f).task l.1 = .raise e := congrArg (f <$> ·) hp
      simp only [step, hp, hp']
  | call op k =>
      have hp' : (x.map f).task l.1 = .call op (fun r => f <$> k r) := congrArg (f <$> ·) hp
      have htask : ∀ q, Function.update (fun i => f <$> x.task i) l.1 (f <$> q) =
          fun i => f <$> Function.update x.task l.1 q i := by
        intro q
        funext i
        by_cases hi : i = l.1
        · rw [hi, Function.update_self, Function.update_self]
        · rw [Function.update_of_ne hi, Function.update_of_ne hi]
      unfold step
      rw [hp, hp']
      simp only [Conf.map, List.map_cons, Event.map, outcome_map, htask]

end Map

theorem step_cases (h : Handler Op Res Exc W C) (x : Conf ι Op Res Exc W α) (i : ι) (c : C) :
    ((x.task i).next = none ∧ step h x (i, c) = x) ∨
    ∃ op k, x.task i = .call op k ∧ step h x (i, c) =
      x.answered i (h.clock (h.exec op c x.world).2) op (h.exec op c x.world).1 (h.exec op c x.world).2
        (k (h.exec op c x.world).1) := by
  cases hp : x.task i with
  | pure a | raise e => exact .inl ⟨rfl, by simp only [step, hp]⟩
  | call op k => exact .inr ⟨op, k, rfl, by simp only [step, hp]⟩

/-- A coroutine that has returned stays so. -/
theorem step_task_of_pure (h : Handler Op Res Exc W C) {x : Conf ι Op Res Exc W α} {j : ι} {a : α}
    (hj : x.task j = .pure a) (i : ι) (c : C) : (step h x (i, c)).task j = .pure a := by
  rcases step_cases h x i c with ⟨_, hs⟩ | ⟨op, k, hp, hs⟩
  · rw [hs]
    exact hj
  · rw [hs]
    refine (Function.update_of_ne (fun he => ?_) _ _).trans hj
    rw [he, hp] at hj
    cases hj

end Autr.Async
