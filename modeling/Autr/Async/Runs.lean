import Mathlib.Logic.Basic

namespace Autr.Async

variable {X L : Type} {step : X → L → X}

/-- A condition on every step of a run, read in the state before the step. -/
def AlongRun (step : X → L → X) (Ok : X → L → Prop) : X → List L → Prop
  | _, [] => True
  | x, l :: ls => Ok x l ∧ AlongRun step Ok (step x l) ls

instance AlongRun.decidable {Ok : X → L → Prop} [∀ x l, Decidable (Ok x l)] :
    ∀ x ls, Decidable (AlongRun step Ok x ls)
  | _, [] => .isTrue trivial
  | x, l :: ls =>
      have : Decidable (AlongRun step Ok (step x l) ls) := AlongRun.decidable (step x l) ls
      inferInstanceAs (Decidable (Ok x l ∧ AlongRun step Ok (step x l) ls))

def AlwaysRun (step : X → L → X) (P : X → Prop) : X → List L → Prop
  | x, [] => P x
  | x, l :: ls => P x ∧ AlwaysRun step P (step x l) ls

variable {Ok Ok' A B : X → L → Prop} {P Q : X → Prop} {x : X} {ls : List L}

theorem AlwaysRun.first (hp : AlwaysRun step P x ls) : P x := by
  cases ls with
  | nil => exact hp
  | cons => exact hp.1

theorem AlwaysRun.last (hp : AlwaysRun step P x ls) : P (ls.foldl step x) := by
  induction ls generalizing x with
  | nil => exact hp
  | cons l ls ih => exact ih hp.2

theorem AlwaysRun.mono (hPQ : ∀ x, P x → Q x) (hp : AlwaysRun step P x ls) : AlwaysRun step Q x ls := by
  induction ls generalizing x with
  | nil => exact hPQ x hp
  | cons l ls ih => exact ⟨hPQ x hp.1, ih hp.2⟩

theorem AlongRun.mono (hOk : ∀ x l, Ok x l → Ok' x l) (ha : AlongRun step Ok x ls) :
    AlongRun step Ok' x ls := by
  induction ls generalizing x with
  | nil => trivial
  | cons l ls ih => exact ⟨hOk _ _ ha.1, ih ha.2⟩

theorem AlongRun.and (ha : AlongRun step Ok x ls) (hb : AlongRun step Ok' x ls) :
    AlongRun step (fun x l => Ok x l ∧ Ok' x l) x ls := by
  induction ls generalizing x with
  | nil => trivial
  | cons l ls ih => exact ⟨⟨ha.1, hb.1⟩, ih ha.2 hb.2⟩

theorem alongRun_of_forall {D : L → Prop} (hd : ∀ l ∈ ls, D l) : AlongRun step (fun _ l => D l) x ls := by
  induction ls generalizing x with
  | nil => trivial
  | cons l ls ih => exact ⟨hd l List.mem_cons_self, ih (fun l' hl' => hd l' (List.mem_cons_of_mem _ hl'))⟩

theorem alongRun_forall {κ : Type} {Ok : κ → X → L → Prop} (ha : ∀ j, AlongRun step (Ok j) x ls) :
    AlongRun step (fun x l => ∀ j, Ok j x l) x ls := by
  induction ls generalizing x with
  | nil => trivial
  | cons l ls ih => exact ⟨fun j => (ha j).1, ih (fun j => (ha j).2)⟩

/-- The run rule: a property that every admitted step preserves holds all along. -/
theorem alwaysRun_of_step (hstep : ∀ x l, P x → Ok x l → P (step x l)) (hx : P x)
    (ha : AlongRun step Ok x ls) : AlwaysRun step P x ls := by
  induction ls generalizing x with
  | nil => exact hx
  | cons l ls ih => exact ⟨hx, ih (hstep x l hx ha.1) ha.2⟩

/-- What an invariant says about the next step holds of every step. -/
theorem alongRun_of_step (hstep : ∀ x l, P x → Ok x l → P (step x l)) (hA : ∀ x l, P x → Ok x l → A x l)
    (hx : P x) (ha : AlongRun step Ok x ls) : AlongRun step A x ls := by
  induction ls generalizing x with
  | nil => trivial
  | cons l ls ih => exact ⟨hA x l hx ha.1, ih (hstep x l hx ha.1) ha.2⟩

theorem run_invariant (hstep : ∀ x l, P x → P (step x l)) (hx : P x) (ls : List L) : P (ls.foldl step x) := by
  induction ls generalizing x with
  | nil => exact hx
  | cons l ls ih => exact ih (hstep x l hx)

theorem alongRun_append {ls' : List L} :
    AlongRun step Ok x (ls ++ ls') ↔ AlongRun step Ok x ls ∧ AlongRun step Ok (ls.foldl step x) ls' := by
  induction ls generalizing x with
  | nil => exact ⟨fun h => ⟨trivial, h⟩, fun h => h.2⟩
  | cons l ls ih => exact (and_congr Iff.rfl ih).trans and_assoc.symm

theorem alongRun_congr (hstep : ∀ x l, P x → Ok x l → P (step x l))
    (hAB : ∀ x l, P x → Ok x l → (A x l ↔ B x l)) (hx : P x) (ha : AlongRun step Ok x ls) :
    AlongRun step A x ls ↔ AlongRun step B x ls := by
  induction ls generalizing x with
  | nil => exact Iff.rfl
  | cons l ls ih => exact and_congr (hAB x l hx ha.1) (ih (hstep x l hx ha.1) ha.2)

/-- A run with more in its state than a condition looks at. -/
theorem alongRun_map {Y : Type} {step' : Y → L → Y} {f : X → Y} {A : Y → L → Prop}
    (hf : ∀ x l, f (step x l) = step' (f x) l) :
    AlongRun step (fun x l => A (f x) l) x ls ↔ AlongRun step' A (f x) ls := by
  induction ls generalizing x with
  | nil => exact Iff.rfl
  | cons l ls ih =>
      rw [AlongRun, AlongRun, ih, hf]

theorem alwaysRun_map {Y : Type} {step' : Y → L → Y} {f : X → Y} {A : Y → Prop}
    (hf : ∀ x l, f (step x l) = step' (f x) l) :
    AlwaysRun step (fun x => A (f x)) x ls ↔ AlwaysRun step' A (f x) ls := by
  induction ls generalizing x with
  | nil => exact Iff.rfl
  | cons l ls ih =>
      rw [AlwaysRun, AlwaysRun, ih, hf]

/-- What is read off each state of a run after its first one. -/
def readings {A : Type} (step : X → L → X) (f : X → A) : X → List L → List A
  | _, [] => []
  | x, l :: ls => f (step x l) :: readings step f (step x l) ls

/-- A machine that can follow each step of a run by its readings follows the run. -/
theorem foldlM_readings {A E : Type} {f : X → A} {follow : A → A → Except E A}
    (ha : AlongRun step (fun x l => follow (f x) (f (step x l)) = .ok (f (step x l))) x ls) :
    (readings step f x ls).foldlM follow (f x) = .ok (f (ls.foldl step x)) := by
  induction ls generalizing x with
  | nil => rfl
  | cons l ls ih =>
      rw [readings, List.foldlM_cons, ha.1]
      exact ih ha.2

end Autr.Async
