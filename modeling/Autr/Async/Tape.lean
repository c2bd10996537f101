import Autr.Async.Pool

namespace Autr.Async

variable {Op : Type} {Res : Op → Type} {Exc W C α β : Type}

/-- Answers that lie in wait: a call gets the answer prepared for it under the number of
counted calls before it. -/
def Handler.taped (h : Handler Op Res Exc W C) (counted : Op → Bool) :
    Handler Op Res Exc (W × ℕ) (ℕ → C) where
  exec op g s :=
    let r := h.exec op (g s.2) s.1
    (r.1, r.2, if counted op then s.2 + 1 else s.2)
  clock s := h.clock s.1

@[simp] theorem taped_exec (h : Handler Op Res Exc W C) (counted : Op → Bool) (op : Op) (g : ℕ → C) (w : W)
    (n : ℕ) : (h.taped counted).exec op g (w, n) =
      ((h.exec op (g n) w).1, (h.exec op (g n) w).2, if counted op then n + 1 else n) := rfl

/-- The calls of a kind with their results, newest first, beside the world. -/
def Handler.logged (h : Handler Op Res Exc W C) (kept : Op → Bool) :
    Handler Op Res Exc (W × List (Σ op, Except Exc (Res op))) C where
  exec op c s :=
    let r := h.exec op c s.1
    (r.1, r.2, if kept op then ⟨op, r.1⟩ :: s.2 else s.2)
  clock s := h.clock s.1

@[simp] theorem logged_exec (h : Handler Op Res Exc W C) (kept : Op → Bool) (op : Op) (c : C) (w : W)
    (log : List (Σ op, Except Exc (Res op))) : (h.logged kept).exec op c (w, log) =
      ((h.exec op c w).1, (h.exec op c w).2, if kept op then ⟨op, (h.exec op c w).1⟩ :: log else log) := rfl

section Compare

variable {h : Handler Op Res Exc W C} {f g : Op → C} {P : Op → Prop}

theorem eval_congr_of_uses (hfg : ∀ op, P op → f op = g op) (p : Prog Op Res Exc α) (hp : p.Uses P) (w : W) :
    eval h f p w = eval h g p w := by
  induction p generalizing w with
  | pure a | raise e => rfl
  | call op k ih =>
      rw [eval, eval, hfg op hp.1]
      exact ih _ (hp.2 _) _

theorem eval_invariant {I : W → Prop} (hI : ∀ op w, P op → I w → I (h.exec op (f op) w).2)
    (p : Prog Op Res Exc α) (hp : p.Uses P) {w : W} (hw : I w) : I (eval h f p w).2 := by
  induction p generalizing w with
  | pure a | raise e => exact hw
  | call op k ih => exact ih _ (hp.2 _) (hI op w hp.1 hw)

/-- The two runs of a coroutine, on one kind of answers and on the other, end in one world. -/
def SameEnd (h : Handler Op Res Exc W C) (f g : Op → C) (p : Prog Op Res Exc α) : Prop :=
  ∀ w, (eval h f p w).2 = (eval h g p w).2

theorem sameEnd_pure (a : α) : SameEnd h f g (pure a : Prog Op Res Exc α) := fun _ => rfl

theorem sameEnd_bind {p : Prog Op Res Exc α} {q : α → Prog Op Res Exc β}
    (hp : ∀ w, eval h f p w = eval h g p w) (hq : ∀ a, SameEnd h f g (q a)) : SameEnd h f g (p >>= q) := by
  intro w
  rw [eval_bind, eval_bind, hp]
  rcases eval h g p w with ⟨_ | a, w'⟩
  · rfl
  · exact hq a w'

theorem eval_bind_pure_snd (p : Prog Op Res Exc α) (b : α → β) (w : W) :
    (eval h f (p >>= fun a => pure (b a)) w).2 = (eval h f p w).2 := by
  rw [eval_bind]
  rcases eval h f p w with ⟨_ | a, w'⟩ <;> rfl

theorem sameEnd_bind_pure {p : Prog Op Res Exc α} (hp : SameEnd h f g p) (b : α → β) :
    SameEnd h f g (p >>= fun a => pure (b a)) := by
  intro w
  rw [eval_bind_pure_snd, eval_bind_pure_snd, hp]

theorem sameEnd_ensure {p : Prog Op Res Exc α} {q : Prog Op Res Exc β} (hp : SameEnd h f g p)
    (hq : ∀ w, eval h f q w = eval h g q w) : SameEnd h f g (p.ensure q) := by
  have hsnd : ∀ (f : Op → C) w, (eval h f (p.ensure q) w).2 = (eval h f q (eval h f p w).2).2 := by
    intro f w
    rw [eval_ensure]
    rcases eval h f p w with ⟨r, w'⟩
    dsimp only
    rcases eval h f q w' with ⟨_ | b, w''⟩ <;> rfl
  intro w
  rw [hsnd, hsnd, hp, hq]

end Compare

/-- Whether the answers that a coroutine gets are of the kind wanted, call after call. -/
def Prog.Answered (h : Handler Op Res Exc W C) (f : Op → C) (Ok : Op → C → W → Prop) :
    Prog Op Res Exc α → W → Prop
  | .pure _, _ | .raise _, _ => True
  | .call op k, w => Ok op (f op) w ∧ (k (h.exec op (f op) w).1).Answered h f Ok (h.exec op (f op) w).2

instance Prog.Answered.decidable {h : Handler Op Res Exc W C} {f : Op → C} {Ok : Op → C → W → Prop}
    [∀ op c w, Decidable (Ok op c w)] : ∀ (p : Prog Op Res Exc α) w, Decidable (p.Answered h f Ok w)
  | .pure _, _ | .raise _, _ => .isTrue trivial
  | .call op k, w =>
      have : Decidable ((k (h.exec op (f op) w).1).Answered h f Ok (h.exec op (f op) w).2) :=
        Prog.Answered.decidable (k (h.exec op (f op) w).1) (h.exec op (f op) w).2
      inferInstanceAs (Decidable (Ok op (f op) w ∧ _))

theorem Prog.Answered.mono {h : Handler Op Res Exc W C} {f : Op → C} {Ok Ok' : Op → C → W → Prop}
    (hOk : ∀ op c w, Ok op c w → Ok' op c w) {p : Prog Op Res Exc α} {w : W} (ha : p.Answered h f Ok w) :
    p.Answered h f Ok' w := by
  induction p generalizing w with
  | pure a | raise e => trivial
  | call op k ih => exact ⟨hOk _ _ _ ha.1, ih _ ha.2⟩

theorem Prog.Answered.and {h : Handler Op Res Exc W C} {f : Op → C} {Ok Ok' : Op → C → W → Prop}
    {p : Prog Op Res Exc α} {w : W} (ha : p.Answered h f Ok w) (hb : p.Answered h f Ok' w) :
    p.Answered h f (fun op c w => Ok op c w ∧ Ok' op c w) w := by
  induction p generalizing w with
  | pure a | raise e => trivial
  | call op k ih => exact ⟨⟨ha.1, hb.1⟩, ih _ ha.2 hb.2⟩

/-- Answers in wait, judged by the one that a call gets and the world it meets. -/
def Prog.Played (h : Handler Op Res Exc W C) (counted : Op → Bool) (f : Op → ℕ → C) (Ok : Op → C → W → Prop)
    (p : Prog Op Res Exc α) (s : W × ℕ) : Prop :=
  p.Answered (h.taped counted) f (fun op g s => Ok op (g s.2) s.1) s

theorem taped_of_wp {h : Handler Op Res Exc W C} {counted : Op → Bool} {f : Op → ℕ → C}
    {Ok : Op → C → W → Prop} {p : Prog Op Res Exc α} {Q : Except Exc α → W → Prop} {s : W × ℕ}
    (hp : p.wp (h.spec Ok) Q s.1) (ha : p.Played h counted f Ok s) :
    Q (eval (h.taped counted) f p s).1 (eval (h.taped counted) f p s).2.1 := by
  induction p generalizing s with
  | pure a | raise e => exact hp
  | call op k ih => exact ih _ (hp _ ha.1) ha.2

end Autr.Async
