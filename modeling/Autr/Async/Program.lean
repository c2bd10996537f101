import Mathlib.Logic.Basic

namespace Autr.Async

/-- A coroutine as the tree of the calls it awaits. A call answers with a value
or raises, and both cases continue, so that exception handlers are combinators. -/
inductive Prog (Op : Type) (Res : Op → Type) (Exc α : Type)
  | pure (a : α)
  | raise (e : Exc)
  | call (op : Op) (k : Except Exc (Res op) → Prog Op Res Exc α)

namespace Prog

variable {Op : Type} {Res : Op → Type} {Exc α β γ S : Type}

def bind : Prog Op Res Exc α → (α → Prog Op Res Exc β) → Prog Op Res Exc β
  | .pure a, f => f a
  | .raise e, _ => .raise e
  | .call op k, f => .call op (fun r => (k r).bind f)

instance : Monad (Prog Op Res Exc) where
  pure := Prog.pure
  bind := Prog.bind

def perform (op : Op) : Prog Op Res Exc (Res op) :=
  .call op (fun r => match r with
    | .ok a => .pure a
    | .error e => .raise e)

def attempt : Prog Op Res Exc α → (Exc → Prog Op Res Exc α) → Prog Op Res Exc α
  | .pure a, _ => .pure a
  | .raise e, h => h e
  | .call op k, h => .call op (fun r => (k r).attempt h)

/-- Go on from both ways out. -/
def resume : Prog Op Res Exc α → (Except Exc α → Prog Op Res Exc β) → Prog Op Res Exc β
  | .pure a, k => k (.ok a)
  | .raise e, k => k (.error e)
  | .call op j, k => .call op (fun r => (j r).resume k)

/-- Replace every call by a program that makes calls of another kind. -/
def interp {Op' : Type} {Res' : Op' → Type} (σ : (op : Op) → Prog Op' Res' Exc (Res op)) :
    Prog Op Res Exc α → Prog Op' Res' Exc α
  | .pure a => .pure a
  | .raise e => .raise e
  | .call op k => (σ op).resume (fun r => (k r).interp σ)

/-- The body of a try statement with a finally clause: the clause runs on both
ways out, and an exception of its own replaces the outcome of the body. -/
def ensure : Prog Op Res Exc α → Prog Op Res Exc β → Prog Op Res Exc α
  | .pure a, q => q.bind (fun _ => .pure a)
  | .raise e, q => q.bind (fun _ => .raise e)
  | .call op k, q => .call op (fun r => (k r).ensure q)

def forEach (f : α → Prog Op Res Exc Unit) : List α → Prog Op Res Exc Unit
  | [] => .pure ()
  | a :: as => (f a).bind (fun _ => forEach f as)

/-- Every call the program can make, on any answers, satisfies the predicate. -/
def Uses (P : Op → Prop) : Prog Op Res Exc α → Prop
  | .pure _ | .raise _ => True
  | .call op k => P op ∧ ∀ r, (k r).Uses P

def Total : Prog Op Res Exc α → Prop
  | .pure _ => True
  | .raise _ => False
  | .call _ k => ∀ r, (k r).Total

/-- Every value the program can return, on any answers, satisfies the predicate. -/
def Returns (P : α → Prop) : Prog Op Res Exc α → Prop
  | .pure a => P a
  | .raise _ => True
  | .call _ k => ∀ r, (k r).Returns P

theorem returns_bind {P : β → Prop} (p : Prog Op Res Exc α) {f : α → Prog Op Res Exc β}
    (hf : ∀ a, (f a).Returns P) : (p.bind f).Returns P := by
  induction p with
  | pure a => exact hf a
  | raise e => trivial
  | call op k ih => exact fun r => ih r

theorem returns_attempt {P : α → Prop} {p : Prog Op Res Exc α} {h : Exc → Prog Op Res Exc α}
    (hp : p.Returns P) (hh : ∀ e, (h e).Returns P) : (p.attempt h).Returns P := by
  induction p with
  | pure a => exact hp
  | raise e => exact hh e
  | call op k ih => exact fun r => ih r (hp r)

theorem total_attempt {p : Prog Op Res Exc α} {h : Exc → Prog Op Res Exc α} (hh : ∀ e, (h e).Total) :
    (p.attempt h).Total := by
  induction p with
  | pure a => trivial
  | raise e => exact hh e
  | call op k ih => exact fun r => ih r

theorem uses_bind {P : Op → Prop} {p : Prog Op Res Exc α} {f : α → Prog Op Res Exc β}
    (hp : p.Uses P) (hf : ∀ a, (f a).Uses P) : (p.bind f).Uses P := by
  induction p with
  | pure a => exact hf a
  | raise e => trivial
  | call op k ih => exact ⟨hp.1, fun r => ih r (hp.2 r)⟩

theorem uses_attempt {P : Op → Prop} {p : Prog Op Res Exc α} {h : Exc → Prog Op Res Exc α}
    (hp : p.Uses P) (hh : ∀ e, (h e).Uses P) : (p.attempt h).Uses P := by
  induction p with
  | pure a => trivial
  | raise e => exact hh e
  | call op k ih => exact ⟨hp.1, fun r => ih r (hp.2 r)⟩

theorem uses_ensure {P : Op → Prop} {p : Prog Op Res Exc α} {q : Prog Op Res Exc β}
    (hp : p.Uses P) (hq : q.Uses P) : (p.ensure q).Uses P := by
  induction p with
  | pure a | raise e => exact uses_bind hq (fun _ => trivial)
  | call op k ih => exact ⟨hp.1, fun r => ih r (hp.2 r)⟩

theorem uses_perform {P : Op → Prop} {op : Op} (h : P op) :
    (perform op : Prog Op Res Exc (Res op)).Uses P := by
  refine ⟨h, fun r => ?_⟩
  cases r <;> trivial

theorem uses_forEach {P : Op → Prop} {f : α → Prog Op Res Exc Unit} (h : ∀ a, (f a).Uses P)
    (as : List α) : (forEach f as).Uses P := by
  induction as with
  | nil => trivial
  | cons a as ih => exact uses_bind (h a) (fun _ => ih)

theorem uses_true (p : Prog Op Res Exc α) : p.Uses (fun _ => True) := by
  induction p with
  | pure a | raise e => trivial
  | call op k ih => exact ⟨trivial, ih⟩

theorem Uses.mono {P Q : Op → Prop} {p : Prog Op Res Exc α} (hp : p.Uses P) (h : ∀ op, P op → Q op) :
    p.Uses Q := by
  induction p with
  | pure a | raise e => trivial
  | call op k ih => exact ⟨h op hp.1, fun r => ih r (hp.2 r)⟩

end Prog

/-- What one call guarantees, as a predicate transformer over a state: the calls
of a program stay uninterpreted until a specification is chosen. -/
abbrev Spec (Op : Type) (Res : Op → Type) (Exc S : Type) :=
  (op : Op) → S → (Except Exc (Res op) → S → Prop) → Prop

def Spec.Mono {Op : Type} {Res : Op → Type} {Exc S : Type} (Φ : Spec Op Res Exc S) : Prop :=
  ∀ op s (Q Q' : Except Exc (Res op) → S → Prop), (∀ r s, Q r s → Q' r s) → Φ op s Q → Φ op s Q'

namespace Prog

variable {Op : Type} {Res : Op → Type} {Exc α β S : Type}

def wp (Φ : Spec Op Res Exc S) : Prog Op Res Exc α → (Except Exc α → S → Prop) → S → Prop
  | .pure a, Q, s => Q (.ok a) s
  | .raise e, Q, s => Q (.error e) s
  | .call op k, Q, s => Φ op s (fun r s => (k r).wp Φ Q s)

def out (Q : α → S → Prop) (R : Exc → S → Prop) : Except Exc α → S → Prop
  | .ok a, s => Q a s
  | .error e, s => R e s

@[simp] theorem out_ok (Q : α → S → Prop) (R : Exc → S → Prop) (a : α) (s : S) :
    out Q R (.ok a) s = Q a s := rfl

variable (Φ : Spec Op Res Exc S)

@[simp] theorem wp_pure (a : α) (Q : Except Exc α → S → Prop) (s : S) :
    wp Φ (Pure.pure a : Prog Op Res Exc α) Q s = Q (.ok a) s := rfl

@[simp] theorem wp_bind (p : Prog Op Res Exc α) (f : α → Prog Op Res Exc β)
    (Q : Except Exc β → S → Prop) (s : S) :
    wp Φ (p >>= f) Q s = wp Φ p (out (fun a => wp Φ (f a) Q) (fun e => Q (.error e))) s := by
  change wp Φ (p.bind f) Q s = _
  induction p generalizing s with
  | pure a | raise e => rfl
  | call op k ih => exact congrArg (Φ op s) (funext fun r => funext fun s => ih r s)

@[simp] theorem wp_perform (op : Op) (Q : Except Exc (Res op) → S → Prop) (s : S) :
    wp Φ (perform op) Q s = Φ op s Q := by
  refine congrArg (Φ op s) (funext fun r => funext fun s => ?_)
  cases r <;> rfl

@[simp] theorem wp_attempt (p : Prog Op Res Exc α) (h : Exc → Prog Op Res Exc α)
    (Q : Except Exc α → S → Prop) (s : S) :
    wp Φ (p.attempt h) Q s = wp Φ p (out (fun a => Q (.ok a)) (fun e => wp Φ (h e) Q)) s := by
  induction p generalizing s with
  | pure a | raise e => rfl
  | call op k ih => exact congrArg (Φ op s) (funext fun r => funext fun s => ih r s)

@[simp] theorem wp_ensure (p : Prog Op Res Exc α) (q : Prog Op Res Exc β)
    (Q : Except Exc α → S → Prop) (s : S) :
    wp Φ (p.ensure q) Q s =
      wp Φ p (fun r => wp Φ q (out (fun _ => Q r) (fun e => Q (.error e)))) s := by
  induction p generalizing s with
  | pure a => exact wp_bind Φ q (fun _ => Prog.pure a) Q s
  | raise e => exact wp_bind Φ q (fun _ => Prog.raise e) Q s
  | call op k ih => exact congrArg (Φ op s) (funext fun r => funext fun s => ih r s)

variable {Φ}

theorem wp_mono (hΦ : Φ.Mono) (p : Prog Op Res Exc α) {Q Q' : Except Exc α → S → Prop}
    (h : ∀ r s, Q r s → Q' r s) (s : S) (hp : wp Φ p Q s) : wp Φ p Q' s := by
  induction p generalizing s with
  | pure a | raise e => exact h _ s hp
  | call op k ih => exact hΦ op s _ _ (fun r s => ih r s) hp

section Invariant

variable {I : S → Prop} {s : S} (hΦ : Φ.Mono)

include hΦ

theorem wp_bind_of {p : Prog Op Res Exc α} {f : α → Prog Op Res Exc β} (hp : wp Φ p (fun _ s => I s) s)
    (hf : ∀ a s, I s → wp Φ (f a) (fun _ s => I s) s) : wp Φ (p >>= f) (fun _ s => I s) s := by
  rw [wp_bind]
  refine wp_mono hΦ p (fun r s' hs' => ?_) s hp
  cases r with
  | ok a => exact hf a s' hs'
  | error e => exact hs'

theorem wp_map_of {p : Prog Op Res Exc α} {f : α → β} (hp : wp Φ p (fun _ s => I s) s) :
    wp Φ (f <$> p) (fun _ s => I s) s :=
  wp_bind_of hΦ hp (fun _ _ hs => hs)

theorem wp_attempt_of {p : Prog Op Res Exc α} {h : Exc → Prog Op Res Exc α} (hp : wp Φ p (fun _ s => I s) s)
    (hh : ∀ e s, I s → wp Φ (h e) (fun _ s => I s) s) : wp Φ (p.attempt h) (fun _ s => I s) s := by
  rw [wp_attempt]
  refine wp_mono hΦ p (fun r s' hs' => ?_) s hp
  cases r with
  | ok a => exact hs'
  | error e => exact hh e s' hs'

theorem wp_ensure_of {p : Prog Op Res Exc α} {q : Prog Op Res Exc β} (hp : wp Φ p (fun _ s => I s) s)
    (hq : ∀ s, I s → wp Φ q (fun _ s => I s) s) : wp Φ (p.ensure q) (fun _ s => I s) s := by
  rw [wp_ensure]
  refine wp_mono hΦ p (fun r s' hs' => ?_) s hp
  refine wp_mono hΦ q (fun r' s'' hs'' => ?_) s' (hq s' hs')
  cases r' <;> exact hs''

theorem wp_forEach_of {f : α → Prog Op Res Exc Unit} (hf : ∀ a s, I s → wp Φ (f a) (fun _ s => I s) s)
    (as : List α) (hs : I s) : wp Φ (forEach f as) (fun _ s => I s) s := by
  induction as generalizing s with
  | nil => exact hs
  | cons a as ih => exact wp_bind_of hΦ (hf a s hs) (fun _ _ hs' => ih hs')

end Invariant

theorem wp_of_uses (hΦ : Φ.Mono) {P : Op → Prop} {I : S → Prop}
    (h : ∀ op s, P op → I s → Φ op s (fun _ s' => I s')) (p : Prog Op Res Exc α) (hp : p.Uses P)
    (s : S) (hs : I s) : wp Φ p (fun _ s' => I s') s := by
  induction p generalizing s with
  | pure a | raise e => exact hs
  | call op k ih =>
      exact hΦ op s _ _ (fun r s' hs' => ih r (hp.2 r) s' hs') (h op s hp.1 hs)

theorem wp_of_uses_total (hΦ : Φ.Mono) {P : Op → Prop} {I : S → Prop}
    (h : ∀ op s, P op → I s → Φ op s (fun _ s' => I s')) (p : Prog Op Res Exc α) (hp : p.Uses P)
    (ht : p.Total) (s : S) (hs : I s) : wp Φ p (fun r s' => (∃ a, r = .ok a) ∧ I s') s := by
  induction p generalizing s with
  | pure a => exact ⟨⟨a, rfl⟩, hs⟩
  | raise e => exact ht.elim
  | call op k ih =>
      exact hΦ op s _ _ (fun r s' hs' => ih r (hp.2 r) (ht r) s' hs') (h op s hp.1 hs)

end Prog

end Autr.Async
