import Mathlib.Data.List.Basic
import Mathlib.Order.Basic
import Mathlib.Order.Nat

namespace Autr.Store

variable {α : Type} {capacity : ℕ} {pushed popped queue : List α} {taken : List ℕ} {next : ℕ}

/-- What has become of the elements pushed to a bounded queue that loses its oldest one when
it is full: the positions of those taken out of it, and the position of the first one that
is still there. -/
structure Ledger (capacity : ℕ) (pushed popped queue : List α) (taken : List ℕ) (next : ℕ) : Prop where
  ascending : taken.Pairwise (· < ·)
  before : ∀ i ∈ taken, i < next
  out : popped.map some = taken.map (fun i => pushed[i]?)
  reached : next ≤ pushed.length
  left : queue = pushed.drop next
  bounded : queue.length ≤ capacity
  lost : ∀ i < next, i ∉ taken → i + capacity < pushed.length

theorem Ledger.empty : Ledger capacity ([] : List α) [] [] [] 0 where
  ascending := .nil
  before _ h := absurd h List.not_mem_nil
  out := rfl
  reached := le_rfl
  left := rfl
  bounded := Nat.zero_le capacity
  lost _ h := absurd h (Nat.not_lt_zero _)

theorem Ledger.length_eq (h : Ledger capacity pushed popped queue taken next) :
    next + queue.length = pushed.length := by
  rw [h.left, List.length_drop]
  exact Nat.add_sub_cancel' h.reached

theorem Ledger.popped_append (h : Ledger capacity pushed popped queue taken next) (m : α) :
    popped.map some = taken.map (fun i => (pushed ++ [m])[i]?) := by
  rw [h.out]
  refine List.map_congr_left (fun i hi => ?_)
  exact (List.getElem?_append_left ((h.before i hi).trans_le h.reached)).symm

theorem Ledger.push (h : Ledger capacity pushed popped queue taken next) (hroom : queue.length < capacity)
    (m : α) : Ledger capacity (pushed ++ [m]) popped (queue ++ [m]) taken next where
  ascending := h.ascending
  before := h.before
  out := h.popped_append m
  reached := by
    rw [List.length_append]
    exact h.reached.trans (Nat.le_add_right _ _)
  left := by rw [h.left, List.drop_append_of_le_length h.reached]
  bounded := by
    rw [List.length_append]
    exact hroom
  lost i hi hn := by
    rw [List.length_append]
    exact (h.lost i hi hn).trans_le (Nat.le_add_right _ _)

/-- A full queue loses its oldest element to the one pushed. -/
theorem Ledger.displace (h : Ledger capacity pushed popped queue taken next) (hfull : queue.length = capacity)
    (hpos : 0 < capacity) (m : α) :
    Ledger capacity (pushed ++ [m]) popped (queue.tail ++ [m]) taken (next + 1) where
  ascending := h.ascending
  before i hi := (h.before i hi).trans (Nat.lt_succ_self next)
  out := h.popped_append m
  reached := by
    rw [List.length_append]
    exact Nat.succ_le_succ h.reached
  left := by
    have hlen := h.length_eq
    rw [h.left, List.tail_drop, List.drop_append_of_le_length (by omega)]
  bounded := by simp; omega
  lost i hi hn := by
    have hlen := h.length_eq
    rw [List.length_append, List.length_singleton]
    rcases Nat.lt_succ_iff_lt_or_eq.1 hi with hi | rfl
    · exact (h.lost i hi hn).trans (Nat.lt_succ_self _)
    · omega

theorem Ledger.pop {m : α} {rest : List α} (h : Ledger capacity pushed popped (m :: rest) taken next) :
    Ledger capacity pushed (popped ++ [m]) rest (taken ++ [next]) (next + 1) where
  ascending := by
    rw [List.pairwise_append]
    refine ⟨h.ascending, List.pairwise_singleton _ _, fun i hi j hj => ?_⟩
    rw [List.mem_singleton.1 hj]
    exact h.before i hi
  before i hi := by
    rcases List.mem_append.1 hi with hi | hi
    · exact (h.before i hi).trans (Nat.lt_succ_self next)
    · rw [List.mem_singleton.1 hi]
      exact Nat.lt_succ_self next
  out := by
    have hhead : pushed[next]? = some m := by
      rw [← List.head?_drop, ← h.left]
      rfl
    rw [List.map_append, List.map_append, h.out, List.map_singleton, List.map_singleton, hhead]
  reached := by
    have hlen := h.length_eq
    rw [List.length_cons] at hlen
    omega
  left := by rw [← List.tail_drop, ← h.left, List.tail_cons]
  bounded := (Nat.le_succ _).trans h.bounded
  lost i hi hn := by
    rw [List.mem_append, List.mem_singleton, not_or] at hn
    rcases Nat.lt_succ_iff_lt_or_eq.1 hi with hi | hi
    · exact h.lost i hi hn.1
    · exact absurd hi hn.2

end Autr.Store
