import Autr.Async.Tape

namespace Autr.Async

variable {Op : Type} {Res : Op → Type} {Exc W C α : Type}

/-- A statement, or the end of a transaction. -/
inductive Stmt (Op : Type)
  | run (op : Op)
  | commit

abbrev Stmt.Answer (Res : Op → Type) : Stmt Op → Type
  | .run op => Res op
  | .commit => Unit

/-- What a store keeps, and what a session sees. -/
structure Session (W : Type) where
  stored : W
  seen : W

/-- A session keeps what each statement does at once, or at a commit. -/
def Handler.session (h : Handler Op Res Exc W C) (auto : Bool) (broken : C → Option Exc) :
    Handler (Stmt Op) (Stmt.Answer Res) Exc (Session W) C where
  exec
    | .run op, c, s =>
        let r := h.exec op c s.seen
        (r.1, ⟨if auto then r.2 else s.stored, r.2⟩)
    | .commit, c, s =>
        match broken c with
        | some e => (.error e, s)
        | none => (.ok (), ⟨s.seen, s.seen⟩)
  clock s := h.clock s.seen

def Prog.statements (p : Prog Op Res Exc α) : Prog (Stmt Op) (Stmt.Answer Res) Exc α :=
  p.interp (fun op => Prog.perform (.run op))

/-- The statements, and a commit after the last one. -/
def Prog.committed (p : Prog Op Res Exc α) : Prog (Stmt Op) (Stmt.Answer Res) Exc α := do
  let a ← p.statements
  let _ ← (Prog.perform Stmt.commit : Prog (Stmt Op) (Stmt.Answer Res) Exc Unit)
  return a

theorem statements_uses (p : Prog Op Res Exc α) : p.statements.Uses (· ≠ .commit) := by
  induction p with
  | pure a | raise e => trivial
  | call op k ih => exact ⟨(fun he => by cases he), fun r => by cases r <;> exact ih _⟩

section Tape

variable (h : Handler Op Res Exc W C) (broken : C → Option Exc) (g : ℕ → C)

/-- A transaction that raises keeps nothing, whichever call of it raises. -/
theorem committed_of_raised (p : Prog Op Res Exc α) (w : W) {e : Exc}
    (he : (eval ((h.session false broken).taped (fun _ => true)) (fun _ => g) p.committed (⟨w, w⟩, 0)).1 = .error e) :
    (eval ((h.session false broken).taped (fun _ => true)) (fun _ => g) p.committed (⟨w, w⟩, 0)).2.1.stored = w := by
  have hstored : (eval ((h.session false broken).taped (fun _ => true)) (fun _ => g) p.statements
      (⟨w, w⟩, 0)).2.1.stored = w := by
    refine eval_invariant (P := (· ≠ .commit)) (I := fun s : Session W × ℕ => s.1.stored = w)
      (fun op s hop hs => ?_) p.statements (statements_uses p) rfl
    cases op with
    | run op => exact hs
    | commit => exact absurd rfl hop
  rw [Prog.committed, eval_bind] at he ⊢
  rcases hrun : eval ((h.session false broken).taped (fun _ => true)) (fun _ => g) p.statements (⟨w, w⟩, 0) with
    ⟨e' | a, s, n⟩
  · rw [hrun] at hstored
    exact hstored
  · rw [hrun] at hstored he
    dsimp only at he ⊢
    rw [eval_bind, eval_perform, taped_exec] at he ⊢
    dsimp only [Handler.session] at he ⊢
    cases hbroken : broken (g n) with
    | some e' =>
        rw [hbroken] at he
        exact hstored
    | none =>
        rw [hbroken] at he
        cases he

/-- Without a transaction a store keeps what a session sees. -/
theorem statements_autocommit (p : Prog Op Res Exc α) (w : W) (n : ℕ) :
    eval ((h.session true broken).taped (fun _ => true)) (fun _ => g) p.statements (⟨w, w⟩, n) =
      ((eval (h.taped (fun _ => true)) (fun _ => g) p (w, n)).1,
        ⟨(eval (h.taped (fun _ => true)) (fun _ => g) p (w, n)).2.1,
          (eval (h.taped (fun _ => true)) (fun _ => g) p (w, n)).2.1⟩,
        (eval (h.taped (fun _ => true)) (fun _ => g) p (w, n)).2.2) := by
  induction p generalizing w n with
  | pure a | raise e => rfl
  | call op k ih =>
      have hresume := eval_resume ((h.session true broken).taped (fun _ => true)) (fun _ => g)
        (Prog.perform (Stmt.run op) : Prog (Stmt Op) (Stmt.Answer Res) Exc (Res op))
        (fun r => (k r).statements) (⟨w, w⟩, n)
      rw [eval_perform] at hresume
      exact hresume.trans (ih _ _ _)

end Tape

end Autr.Async
