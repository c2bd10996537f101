import Mathlib.Algebra.Group.Nat.Even
import Mathlib.Data.List.Chain

namespace Autr.Store.Alternation

variable {α : Type}

/-- From `a` on, each element is the flip of the one before. -/
def Alternates (flip : α → α) : α → List α → Prop
  | _, [] => True
  | a, x :: xs => x = a ∧ Alternates flip (flip a) xs

def kept : List (α × Bool) → List α
  | [] => []
  | (x, true) :: attempts => x :: kept attempts
  | (_, false) :: attempts => kept attempts

/-- An even number of attempts is lost before each one that is kept. -/
def LostInPairs : ℕ → List Bool → Prop
  | _, [] => True
  | lost, true :: attempts => Even lost ∧ LostInPairs lost attempts
  | lost, false :: attempts => LostInPairs (lost + 1) attempts

section TwoValued

variable {flip : α → α} (hflip : ∀ a b, b = flip a ↔ b ≠ a)
include hflip

theorem flip_ne (a : α) : flip a ≠ a := (hflip a (flip a)).1 rfl

theorem flip_flip (a : α) : flip (flip a) = a := ((hflip (flip a) a).2 (flip_ne hflip a).symm).symm

/-- An alternating list of attempts, kept in part, alternates as well exactly when the
losses come in pairs. -/
theorem kept_alternates_iff {attempts : List (α × Bool)} {a : α} {lost : ℕ}
    (h : Alternates flip (if Even lost then a else flip a) (attempts.map Prod.fst)) :
    Alternates flip a (kept attempts) ↔ LostInPairs lost (attempts.map Prod.snd) := by
  induction attempts generalizing a lost with
  | nil => exact Iff.rfl
  | cons attempt attempts ih =>
      obtain ⟨x, ok⟩ := attempt
      obtain ⟨hx, hrest⟩ := h
      dsimp only at hx
      cases ok with
      | true =>
          change x = a ∧ Alternates flip (flip a) (kept attempts) ↔ Even lost ∧ LostInPairs lost (attempts.map Prod.snd)
          by_cases hlost : Even lost
          · rw [if_pos hlost] at hx hrest
            rw [ih (by rwa [if_pos hlost])]
            exact and_congr ⟨fun _ => hlost, fun _ => hx⟩ Iff.rfl
          · rw [if_neg hlost] at hx
            exact ⟨fun hkept => absurd (hx.symm.trans hkept.1) (flip_ne hflip a), fun heven => absurd heven.1 hlost⟩
      | false =>
          change Alternates flip a (kept attempts) ↔ LostInPairs (lost + 1) (attempts.map Prod.snd)
          refine ih ?_
          by_cases hlost : Even lost
          · rw [if_pos hlost] at hrest
            rwa [if_neg (Nat.even_add_one.not.2 (not_not_intro hlost))]
          · rw [if_neg hlost, flip_flip hflip] at hrest
            rwa [if_pos (Nat.even_add_one.2 hlost)]

theorem alternates_iff {a : α} {xs : List α} :
    Alternates flip a xs ↔ xs.IsChain (· ≠ ·) ∧ ∀ x ∈ xs.head?, x = a := by
  induction xs generalizing a with
  | nil => simp [Alternates]
  | cons x xs ih =>
      rw [Alternates, ih]
      cases xs with
      | nil => simp
      | cons y ys =>
          rw [List.isChain_cons_cons]
          simp only [List.head?_cons, Option.mem_some_iff, forall_eq']
          constructor
          · rintro ⟨rfl, hchain, rfl⟩
            exact ⟨⟨(flip_ne hflip x).symm, hchain⟩, rfl⟩
          · rintro ⟨⟨hne, hchain⟩, rfl⟩
            exact ⟨rfl, hchain, (hflip x y).2 hne.symm⟩

end TwoValued

end Autr.Store.Alternation
