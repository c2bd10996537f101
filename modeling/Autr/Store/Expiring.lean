import Mathlib.Data.Option.Basic
import Mathlib.Logic.Function.Basic
import Mathlib.Order.Lattice

namespace Autr.Store

variable {κ α τ Op Ans : Type} [LinearOrder τ] (expiry : α → Option τ)

/-- An entry lives through the instant of its expiry; one without an expiry lives on. -/
def Unexpired (now : τ) (a : α) : Prop := ∀ t ∈ expiry a, now ≤ t

instance (now : τ) (a : α) : Decidable (Unexpired expiry now a) := inferInstanceAs (Decidable (∀ t ∈ expiry a, now ≤ t))

/-- The map without the entries that have expired. -/
def sweep (now : τ) (m : κ → Option α) : κ → Option α :=
  fun k => (m k).filter (fun a => Unexpired expiry now a)

/-- The answers of a store to timed operations. -/
def answers (step : τ → Op → (κ → Option α) → Ans × (κ → Option α)) :
    List (τ × Op) → (κ → Option α) → List Ans
  | [], _ => []
  | (now, op) :: calls, m => (step now op m).1 :: answers step calls (step now op m).2

/-- A store that is swept before each operation. -/
def swept (step : τ → Op → (κ → Option α) → Ans × (κ → Option α)) :
    τ → Op → (κ → Option α) → Ans × (κ → Option α) :=
  fun now op m => step now op (sweep expiry now m)

variable {expiry} {now later : τ} {m m' : κ → Option α} {k : κ} {a : α}

theorem Unexpired.before (h : now ≤ later) (ha : Unexpired expiry later a) : Unexpired expiry now a :=
  fun t ht => h.trans (ha t ht)

theorem sweep_eq_some : sweep expiry now m k = some a ↔ m k = some a ∧ Unexpired expiry now a := by
  simp [sweep]

theorem sweep_sweep (h : now ≤ later) : sweep expiry later (sweep expiry now m) = sweep expiry later m := by
  funext k
  refine Option.ext (fun a => ?_)
  simp only [sweep_eq_some]
  constructor
  · rintro ⟨⟨hm, -⟩, ha⟩
    exact ⟨hm, ha⟩
  · rintro ⟨hm, ha⟩
    exact ⟨⟨hm, ha.before h⟩, ha⟩

section Update

variable [DecidableEq κ]

theorem sweep_update_none (m : κ → Option α) (k : κ) :
    sweep expiry now (Function.update m k none) = Function.update (sweep expiry now m) k none := by
  funext k'
  by_cases hk : k' = k
  · subst hk
    simp [sweep]
  · simp [sweep, hk]

theorem sweep_update_some (m : κ → Option α) (k : κ) (ha : Unexpired expiry now a) :
    sweep expiry now (Function.update m k (some a)) = Function.update (sweep expiry now m) k (some a) := by
  funext k'
  by_cases hk : k' = k
  · subst hk
    simp [sweep, ha]
  · simp [sweep, hk]

/-- Taking out an entry that has expired changes nothing that a swept map shows. -/
theorem sweep_update_of_expired (hm : m k = some a) (ha : ¬ Unexpired expiry now a) :
    sweep expiry now (Function.update m k none) = sweep expiry now m := by
  have hnone : sweep expiry now m k = none := by
    simp [sweep, hm, ha]
  rw [sweep_update_none]
  exact Function.update_eq_self_iff.2 hnone.symm

end Update

/-- One operation of a lazy store, seen through a sweep, is that of a swept one. -/
def Hides (expiry : α → Option τ) (lazy eager : τ → Op → (κ → Option α) → Ans × (κ → Option α)) : Prop :=
  ∀ now op m, (lazy now op m).1 = (swept expiry eager now op m).1 ∧
    sweep expiry now (lazy now op m).2 = sweep expiry now (swept expiry eager now op m).2

/-- Two stores that differ in expired entries only go on to give the same answers. -/
theorem answers_of_hides {lazy eager : τ → Op → (κ → Option α) → Ans × (κ → Option α)}
    (h : Hides expiry lazy eager) {calls : List (τ × Op)} (hsorted : (calls.map Prod.fst).Pairwise (· ≤ ·))
    (hm : ∀ call ∈ calls, sweep expiry call.1 m = sweep expiry call.1 m') :
    answers lazy calls m = answers (swept expiry eager) calls m' := by
  induction calls generalizing m m' with
  | nil => rfl
  | cons call calls ih =>
      obtain ⟨now, op⟩ := call
      obtain ⟨hfirst, hrest⟩ := List.pairwise_cons.1 hsorted
      obtain ⟨hanswer, hafter⟩ := h now op m
      have hnow : swept expiry eager now op m = swept expiry eager now op m' :=
        congrArg (eager now op) (hm _ List.mem_cons_self)
      rw [hnow] at hanswer hafter
      refine List.cons_eq_cons.2 ⟨hanswer, ih hrest (fun call hcall => ?_)⟩
      have hlater : now ≤ call.1 := hfirst _ (List.mem_map_of_mem hcall)
      rw [← sweep_sweep hlater, hafter, sweep_sweep hlater]

end Autr.Store
