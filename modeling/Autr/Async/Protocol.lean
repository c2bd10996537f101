import Autr.Async.Pool

namespace Autr.Async

/-- A discipline for the calls of one coroutine: a phase computed from its own
events, and the calls each phase allows. -/
structure Protocol (Op : Type) (Res : Op → Type) (Exc Q : Type) where
  start : Q
  next : Q → ℚ → (op : Op) → Except Exc (Res op) → Q
  allows : Q → Op → Prop
  final : Q → Prop

variable {Op : Type} {Res : Op → Type} {Exc W C Q α : Type}

namespace Protocol

def spec (P : Protocol Op Res Exc Q) : Spec Op Res Exc Q :=
  fun op q R => P.allows q op ∧ ∀ t r, R r (P.next q t op r)

theorem spec_mono (P : Protocol Op Res Exc Q) : P.spec.Mono :=
  fun _ _ _ _ hR h => ⟨h.1, fun t r => hR _ _ (h.2 t r)⟩

def Follows (P : Protocol Op Res Exc Q) (q : Q) (p : Prog Op Res Exc α) : Prop :=
  p.wp P.spec (fun _ q' => P.final q') q

theorem wp_of_uses (P : Protocol Op Res Exc Q) {q : Q} {U : Op → Prop}
    (h : ∀ op, U op → P.allows q op ∧ ∀ t r, P.next q t op r = q) (p : Prog Op Res Exc α)
    (hp : p.Uses U) : p.wp P.spec (fun _ q' => q' = q) q :=
  Prog.wp_of_uses P.spec_mono (fun op _ hop hq => hq ▸ h op hop) p hp q rfl

end Protocol

variable {ι : Type} [DecidableEq ι]

def phase (P : Protocol Op Res Exc Q) (i : ι) : List (Event ι Op Res Exc α) → Q
  | [] => P.start
  | e :: tr => if e.task = i then P.next (phase P i tr) e.time e.op e.result else phase P i tr

theorem phase_cons_self (P : Protocol Op Res Exc Q) (e : Event ι Op Res Exc α)
    (tr : List (Event ι Op Res Exc α)) :
    phase P e.task (e :: tr) = P.next (phase P e.task tr) e.time e.op e.result := by
  simp [phase]

theorem phase_cons_ne (P : Protocol Op Res Exc Q) {i : ι} {e : Event ι Op Res Exc α}
    (hi : e.task ≠ i) (tr : List (Event ι Op Res Exc α)) : phase P i (e :: tr) = phase P i tr := by
  simp [phase, hi]

theorem phase_of_absent (P : Protocol Op Res Exc Q) {i : ι} {tr : List (Event ι Op Res Exc α)}
    (h : ∀ e ∈ tr, e.task ≠ i) : phase P i tr = P.start := by
  induction tr with
  | nil => rfl
  | cons e tr ih =>
      rw [phase_cons_ne P (h e List.mem_cons_self)]
      exact ih (fun e' he' => h e' (List.mem_cons_of_mem e he'))

theorem phase_map {β : Type} (P : Protocol Op Res Exc Q) (f : α → β) (i : ι) (tr : List (Event ι Op Res Exc α)) :
    phase P i (tr.map (Event.map f)) = phase P i tr := by
  induction tr with
  | nil => rfl
  | cons e tr ih => simp only [List.map_cons, phase, Event.map, ih]

theorem phase_answered (P : Protocol Op Res Exc Q) (x : Conf ι Op Res Exc W α) (i : ι) (t : ℚ) (op : Op)
    (r : Except Exc (Res op)) (w : W) (p : Prog Op Res Exc α) :
    phase P i (x.answered i t op r w p).trace = P.next (phase P i x.trace) t op r :=
  phase_cons_self P ⟨i, t, op, r, p.outcome⟩ x.trace

theorem phase_answered_ne (P : Protocol Op Res Exc Q) (x : Conf ι Op Res Exc W α) {i j : ι} (hj : j ≠ i) (t : ℚ)
    (op : Op) (r : Except Exc (Res op)) (w : W) (p : Prog Op Res Exc α) :
    phase P j (x.answered i t op r w p).trace = phase P j x.trace :=
  phase_cons_ne P (e := ⟨i, t, op, r, p.outcome⟩) (Ne.symm hj) x.trace

theorem phases_cons (P : ι → Protocol Op Res Exc Q) (e : Event ι Op Res Exc α)
    (tr : List (Event ι Op Res Exc α)) :
    (fun i => phase (P i) i (e :: tr)) = Function.update (fun i => phase (P i) i tr) e.task
      ((P e.task).next (phase (P e.task) e.task tr) e.time e.op e.result) := by
  funext i
  by_cases hi : i = e.task
  · subst hi
    rw [Function.update_self, phase_cons_self]
  · rw [Function.update_of_ne hi, phase_cons_ne _ (Ne.symm hi)]

/-- Every task still keeps to its protocol from the phase its events have led to. -/
def Disciplined (P : ι → Protocol Op Res Exc Q) (x : Conf ι Op Res Exc W α) : Prop :=
  ∀ i, (P i).Follows (phase (P i) i x.trace) (x.task i)

theorem disciplined_start {P : ι → Protocol Op Res Exc Q} {task : ι → Prog Op Res Exc α}
    (h : ∀ i, (P i).Follows (P i).start (task i)) (w : W) : Disciplined P (start task w) :=
  h

theorem disciplined_step (P : ι → Protocol Op Res Exc Q) (h : Handler Op Res Exc W C)
    {x : Conf ι Op Res Exc W α} (hx : Disciplined P x) (i : ι) (c : C) :
    Disciplined P (step h x (i, c)) := by
  rcases step_cases h x i c with ⟨_, hs⟩ | ⟨op, k, hp, hs⟩
  · rw [hs]; exact hx
  · rw [hs]
    have hi := hx i
    rw [hp] at hi
    intro j
    by_cases hj : j = i
    · subst hj
      simpa [phase, Protocol.Follows] using hi.2 (h.clock (h.exec op c x.world).2) (h.exec op c x.world).1
    · simpa [phase, Ne.symm hj, hj] using hx j

theorem Disciplined.allows {P : ι → Protocol Op Res Exc Q} {x : Conf ι Op Res Exc W α}
    (hx : Disciplined P x) {i : ι} {op : Op} {k : Except Exc (Res op) → Prog Op Res Exc α}
    (hp : x.task i = .call op k) : (P i).allows (phase (P i) i x.trace) op := by
  have hi := hx i
  rw [hp] at hi
  exact hi.1

/-- The call that each task makes next is one that its own events allow. -/
def Obeys (P : ι → Protocol Op Res Exc Q) (x : Conf ι Op Res Exc W α) : Prop :=
  ∀ i, ∀ op ∈ (x.task i).next, (P i).allows (phase (P i) i x.trace) op

theorem Disciplined.obeys {P : ι → Protocol Op Res Exc Q} {x : Conf ι Op Res Exc W α} (hx : Disciplined P x) :
    Obeys P x := by
  intro i op hop
  cases hp : x.task i with
  | pure a | raise e =>
      rw [hp] at hop
      cases hop
  | call op' k =>
      rw [hp] at hop
      cases hop
      exact hx.allows hp

/-- Tasks that follow their protocols obey them in every run. -/
theorem always_obeys {P : ι → Protocol Op Res Exc Q} {task : ι → Prog Op Res Exc α}
    (htask : ∀ i, (P i).Follows (P i).start (task i)) (h : Handler Op Res Exc W C) (w : W) (ls : List (ι × C)) :
    Always h (Obeys P) (start task w) ls := by
  have hrun : Always h (Disciplined P) (start task w) ls :=
    alwaysRun_of_step (fun _ l hx _ => disciplined_step P h hx l.1 l.2) (disciplined_start htask w)
      (alongRun_of_forall (D := fun _ => True) (fun _ _ => trivial))
  exact hrun.mono (fun _ hx => hx.obeys)

end Autr.Async
