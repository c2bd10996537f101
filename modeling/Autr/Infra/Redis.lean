import Mathlib.Data.Rat.Defs
import Mathlib.Logic.Function.Basic
import Mathlib.Order.Defs.LinearOrder
import Mathlib.Algebra.Order.Ring.Unbundled.Rat

namespace Autr.Infra.Redis

/-- The in-memory fallback drops an entry once the clock is past its expiry; a real
server drops it when the expiry is reached. -/
inductive Backend
  | inMemory
  | real
  deriving DecidableEq

def Backend.expired : Backend → ℚ → ℚ → Bool
  | .inMemory, now, exp => decide (exp < now)
  | .real, now, exp => decide (exp ≤ now)

structure Entry where
  value : String
  exp : Option ℚ
  deriving DecidableEq

abbrev Store := String → Option Entry

def Entry.live (b : Backend) (now : ℚ) (e : Entry) : Bool :=
  match e.exp with
  | none => true
  | some t => !b.expired now t

def evict (b : Backend) (now : ℚ) (key : String) (s : Store) : Store :=
  match s key with
  | some e => if e.live b now then s else Function.update s key none
  | none => s

def get (b : Backend) (now : ℚ) (key : String) (s : Store) : Option String × Store :=
  let s := evict b now key s
  ((s key).map Entry.value, s)

/-- `ex` counts from now; an `ex` of zero is no expiry, as the code tests its truth. -/
def set (now : ℚ) (key value : String) (ex : Option ℚ) (s : Store) : Store :=
  Function.update s key (some ⟨value, ex.bind (fun t => if t = 0 then none else some (now + t))⟩)

def acquireLock (b : Backend) (now : ℚ) (key : String) (ttl : ℚ) (s : Store) : Bool × Store :=
  let s := evict b now key s
  if (s key).isSome then (false, s) else (true, Function.update s key (some ⟨"1", some (now + ttl)⟩))

def releaseLock (key : String) (s : Store) : Store := Function.update s key none

def queueMaxLen : ℕ := 200

/-- A queue with its oldest message first. A full one loses that message to the new one. -/
def queuePush {α : Type} (b : Backend) (m : α) (q : List α) : List α :=
  match b with
  | .inMemory => if queueMaxLen ≤ q.length then q.tail ++ [m] else q ++ [m]
  | .real => (q ++ [m]).drop (q.length + 1 - queueMaxLen)

def Live (b : Backend) (now : ℚ) (key : String) (s : Store) : Prop :=
  ∃ e, s key = some e ∧ e.live b now = true

def processedKey (sigId : String) : String := "processed:" ++ sigId

def executorLock (symbol : String) : String := "lock:executor:" ++ symbol

def fundingArbLock (symbol : String) : String := "lock:funding_arb:" ++ symbol

theorem executorLock_inj {s t : String} : executorLock s = executorLock t ↔ s = t := by
  simp [executorLock]

theorem ne_of_char {p q : List Char} (n : ℕ) (hp : p[n]? ≠ none) (hq : q[n]? ≠ none) (hn : p[n]? ≠ q[n]?)
    (s t : String) : String.ofList p ++ s ≠ String.ofList q ++ t := by
  intro h
  have h' := congrArg String.toList h
  rw [String.toList_append, String.toList_append, String.toList_ofList, String.toList_ofList] at h'
  have hnp := (List.getElem?_eq_none_iff.not.1 hp)
  have hnq := (List.getElem?_eq_none_iff.not.1 hq)
  apply hn
  rw [← List.getElem?_append_left (not_le.1 hnp), h', List.getElem?_append_left (not_le.1 hnq)]

theorem processedKey_ne_executorLock (sigId symbol : String) :
    processedKey sigId ≠ executorLock symbol :=
  ne_of_char 0 (by decide) (by decide) (by decide) sigId symbol

theorem processedKey_inj {s t : String} : processedKey s = processedKey t ↔ s = t := by
  simp [processedKey]

variable {b : Backend} {now : ℚ} {key k : String} {s : Store}

theorem evict_of_ne (h : k ≠ key) : evict b now key s k = s k := by
  cases hs : s key with
  | none => simp [evict, hs]
  | some e => cases hl : e.live b now <;> simp [evict, hs, hl, h]

theorem evict_of_live (h : Live b now key s) : evict b now key s = s := by
  obtain ⟨e, he, hl⟩ := h
  simp [evict, he, hl]

theorem evict_of_not_live (h : ¬ Live b now key s) : evict b now key s key = none := by
  cases hs : s key with
  | none => simp [evict, hs]
  | some e =>
      cases hl : e.live b now with
      | false => simp [evict, hs, hl]
      | true => exact absurd ⟨e, hs, hl⟩ h

theorem acquireLock_fst (ttl : ℚ) : (acquireLock b now key ttl s).1 = true ↔ ¬ Live b now key s := by
  constructor
  · intro h hl
    rw [acquireLock, evict_of_live hl] at h
    obtain ⟨e, he, _⟩ := hl
    simp [he] at h
  · intro h
    simp [acquireLock, evict_of_not_live h]

theorem acquireLock_snd_of_not_live (ttl : ℚ) (h : ¬ Live b now key s) :
    (acquireLock b now key ttl s).2 key = some ⟨"1", some (now + ttl)⟩ := by
  simp [acquireLock, evict_of_not_live h]

theorem acquireLock_snd_of_live (ttl : ℚ) (h : Live b now key s) : (acquireLock b now key ttl s).2 = s := by
  have he := h
  obtain ⟨e, he, _⟩ := he
  simp [acquireLock, evict_of_live h, he]

theorem acquireLock_of_ne (ttl : ℚ) (h : k ≠ key) : (acquireLock b now key ttl s).2 k = s k := by
  cases hs : evict b now key s key with
  | some e => simp [acquireLock, hs, evict_of_ne h]
  | none => simp [acquireLock, hs, h, evict_of_ne h]

theorem get_snd_of_ne (h : k ≠ key) : (get b now key s).2 k = s k := evict_of_ne h

theorem set_of_ne {value : String} {ex : Option ℚ} (h : k ≠ key) : set now key value ex s k = s k :=
  Function.update_of_ne h _ _

theorem queuePush_of_lt {α : Type} (m : α) {q : List α} (h : q.length < queueMaxLen) :
    queuePush b m q = q ++ [m] := by
  cases b with
  | inMemory => exact if_neg (not_le.2 h)
  | real => rw [queuePush, Nat.sub_eq_zero_of_le h, List.drop_zero]

theorem expired_mono (b : Backend) {now s t : ℚ} (h : s ≤ t) (ht : b.expired now t = true) :
    b.expired now s = true := by
  cases b with
  | inMemory => exact decide_eq_true (lt_of_le_of_lt h (of_decide_eq_true ht))
  | real => exact decide_eq_true (le_trans h (of_decide_eq_true ht))

theorem expired_of_not_live {exp : ℚ} {v : String} (he : s key = some ⟨v, some exp⟩) (h : ¬ Live b now key s) :
    b.expired now exp = true := by
  by_contra hn
  exact h ⟨_, he, by simpa [Entry.live] using hn⟩

theorem get_of_not_expired {exp : ℚ} {v : String} (he : s key = some ⟨v, some exp⟩)
    (h : b.expired now exp = false) : get b now key s = (some v, s) := by
  rw [get, evict_of_live ⟨_, he, by simp [Entry.live, h]⟩, he]
  rfl

theorem get_fst_eq_none : (get b now key s).1 = none ↔ ¬ Live b now key s := by
  constructor
  · intro h hl
    rw [get, evict_of_live hl] at h
    obtain ⟨e, he, _⟩ := hl
    simp [he] at h
  · intro h
    simp [get, evict_of_not_live h]

end Autr.Infra.Redis
