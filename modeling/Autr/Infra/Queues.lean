import Autr.Infra.Redis
import Autr.Store.Lossy
import Mathlib.Data.List.Induction

namespace Autr.Infra.Queues

open Autr.Store Redis

/-- An `asyncio.Queue`, its oldest item first. -/
structure AsyncQueue (α : Type) where
  maxsize : ℕ
  items : List α

variable {α : Type}

def AsyncQueue.full (q : AsyncQueue α) : Bool := 0 < q.maxsize && q.maxsize ≤ q.items.length

/-- Nothing stands for `QueueEmpty`. -/
def AsyncQueue.getNowait (q : AsyncQueue α) : Option (α × AsyncQueue α) :=
  match q.items with
  | [] => none
  | m :: items => some (m, { q with items })

/-- On a full queue `put` waits. -/
def AsyncQueue.put (m : α) (q : AsyncQueue α) : Option (AsyncQueue α) :=
  if q.full then none else some { q with items := q.items ++ [m] }

namespace InMemoryRedis

def newQueue : AsyncQueue α := ⟨queueMaxLen, []⟩

def queuePush (m : α) (q : AsyncQueue α) : Option (AsyncQueue α) :=
  let q := if q.full then (q.getNowait.map Prod.snd).getD q else q
  q.put m

def queuePop (q : AsyncQueue α) : Option α × AsyncQueue α :=
  match q.getNowait with
  | some (m, q) => (some m, q)
  | none => (none, q)

end InMemoryRedis

namespace RealRedis

def lpush (m : α) (l : List α) : List α := m :: l

/-- `LTRIM`: both ends are kept, and an index below zero counts from the end. -/
def ltrim (start stop : ℤ) (l : List α) : List α :=
  let first := (if start < 0 then l.length + start else start).toNat
  let afterLast := ((if stop < 0 then l.length + stop else stop) + 1).toNat
  (l.take afterLast).drop first

def brpop (l : List α) : Option α × List α :=
  match l.getLast? with
  | some m => (some m, l.dropLast)
  | none => (none, l)

def queuePush (m : α) (l : List α) : List α := ltrim 0 (queueMaxLen - 1) (lpush m l)

def queuePop (l : List α) : Option α × List α := brpop l

end RealRedis

inductive Operation (α : Type)
  | push (m : α)
  | pop

def pushed (ops : List (Operation α)) : List α :=
  ops.filterMap (fun op => match op with
    | .push m => some m
    | .pop => none)

/-- A queue with the answers its pops have given. -/
structure Served (Q α : Type) where
  queue : Q
  answers : List (Option α)

def Served.popped {Q : Type} (s : Served Q α) : List α := s.answers.filterMap id

def Operation.onMemory (s : Served (AsyncQueue α) α) : Operation α → Option (Served (AsyncQueue α) α)
  | .push m => (InMemoryRedis.queuePush m s.queue).map (fun queue => { s with queue })
  | .pop =>
      let r := InMemoryRedis.queuePop s.queue
      some ⟨r.2, s.answers ++ [r.1]⟩

def Operation.onServer (s : Served (List α) α) : Operation α → Served (List α) α
  | .push m => { s with queue := RealRedis.queuePush m s.queue }
  | .pop =>
      let r := RealRedis.queuePop s.queue
      ⟨r.2, s.answers ++ [r.1]⟩

/-- The in-memory run stops where a push would wait. -/
def memoryRun (ops : List (Operation α)) : Option (Served (AsyncQueue α) α) :=
  ops.foldlM Operation.onMemory ⟨InMemoryRedis.newQueue, []⟩

def serverRun (ops : List (Operation α)) : Served (List α) α := ops.foldl Operation.onServer ⟨[], []⟩

namespace InMemoryRedis

theorem queuePush_of_room {m : α} {q : AsyncQueue α} (h : q.items.length < q.maxsize) :
    queuePush m q = some { q with items := q.items ++ [m] } := by
  have hfull : q.full = false := by simp [AsyncQueue.full, h]
  simp [queuePush, AsyncQueue.put, hfull]

theorem queuePush_of_full {m : α} {q : AsyncQueue α} (hpos : 0 < q.maxsize) (h : q.items.length = q.maxsize) :
    queuePush m q = some { q with items := q.items.tail ++ [m] } := by
  obtain ⟨maxsize, items⟩ := q
  dsimp only at hpos h
  subst h
  cases items with
  | nil => cases hpos
  | cons a items => simp [queuePush, AsyncQueue.full, AsyncQueue.getNowait, AsyncQueue.put]

/-- The queue of a full fallback has lost its oldest message to the new one. -/
theorem queuePush_eq (m : α) {q : AsyncQueue α} (hmax : q.maxsize = queueMaxLen)
    (hlen : q.items.length ≤ queueMaxLen) :
    queuePush m q = some { q with items := Redis.queuePush .inMemory m q.items } := by
  have hpos : 0 < q.maxsize := hmax ▸ (by decide : 0 < queueMaxLen)
  rcases hlen.lt_or_eq with hroom | hfull
  · rw [queuePush_of_room (hmax ▸ hroom), Redis.queuePush, if_neg (not_le.2 hroom)]
  · rw [queuePush_of_full hpos (hfull.trans hmax.symm), Redis.queuePush, if_pos hfull.ge]

end InMemoryRedis

namespace RealRedis

/-- The list of the server has its newest message first. -/
theorem queuePush_reverse (m : α) (l : List α) :
    (queuePush m l).reverse = Redis.queuePush .real m l.reverse := by
  have hlast : ((queueMaxLen : ℤ) - 1 + 1).toNat = queueMaxLen := by decide
  simp only [queuePush, ltrim, lpush, Redis.queuePush]
  rw [if_neg (by decide), if_neg (by decide), hlast, Int.toNat_zero, List.drop_zero, List.reverse_take]
  simp

theorem queuePop_of_reverse {l : List α} {q : List α} (h : l.reverse = q) :
    (queuePop l).1 = q.head? ∧ (queuePop l).2.reverse = q.tail := by
  subst h
  rw [queuePop, brpop, List.head?_reverse]
  cases hl : l.getLast? with
  | none =>
      rw [List.getLast?_eq_none_iff] at hl
      subst hl
      exact ⟨rfl, rfl⟩
  | some m => exact ⟨rfl, by rw [List.tail_reverse]⟩

end RealRedis

/-- Up to its length a full queue loses the same message in both. -/
theorem queuePush_real {q : List α} (hlen : q.length ≤ queueMaxLen) (m : α) :
    Redis.queuePush .real m q = Redis.queuePush .inMemory m q := by
  rcases hlen.lt_or_eq with hroom | hfull
  · rw [queuePush_of_lt m hroom, queuePush_of_lt m hroom]
  · have hone : q.length + 1 - queueMaxLen = 1 := by omega
    have hne : q ≠ [] := by
      rintro rfl
      cases hfull
    rw [Redis.queuePush, Redis.queuePush, if_pos hfull.ge, hone, List.drop_one, List.tail_append_of_ne_nil hne]

/-- The two runs side by side, and what the pushes and pops so far have come to. -/
structure InStep (ops : List (Operation α)) (mem : Served (AsyncQueue α) α) (taken : List ℕ) (next : ℕ) : Prop where
  maxsize : mem.queue.maxsize = queueMaxLen
  answers : mem.answers = (serverRun ops).answers
  items : (serverRun ops).queue.reverse = mem.queue.items
  ledger : Ledger queueMaxLen (pushed ops) mem.popped mem.queue.items taken next

variable {ops : List (Operation α)} {mem : Served (AsyncQueue α) α} {taken : List ℕ} {next : ℕ}

theorem memoryRun_concat (h : memoryRun ops = some mem) (op : Operation α) :
    memoryRun (ops ++ [op]) = op.onMemory mem := by
  change List.foldlM _ _ ops = some mem at h
  rw [memoryRun, List.foldlM_append, h]
  exact bind_pure (op.onMemory mem)

theorem serverRun_concat (ops : List (Operation α)) (op : Operation α) :
    serverRun (ops ++ [op]) = op.onServer (serverRun ops) := by
  rw [serverRun, List.foldl_append]
  rfl

theorem push_inStep (h : InStep ops mem taken next) (m : α) :
    ∃ mem' next', (Operation.push m).onMemory mem = some mem' ∧ InStep (ops ++ [.push m]) mem' taken next' := by
  have hlen := h.ledger.bounded
  have hpushed : pushed (ops ++ [.push m]) = pushed ops ++ [m] := by simp [pushed]
  have hitems : (RealRedis.queuePush m (serverRun ops).queue).reverse =
      Redis.queuePush .inMemory m mem.queue.items := by
    rw [RealRedis.queuePush_reverse, h.items, queuePush_real hlen]
  rw [Operation.onMemory, InMemoryRedis.queuePush_eq m h.maxsize hlen]
  have hledger : ∃ next', Ledger queueMaxLen (pushed ops ++ [m]) mem.popped
      (Redis.queuePush .inMemory m mem.queue.items) taken next' := by
    rcases hlen.lt_or_eq with hroom | hfull
    · rw [queuePush_of_lt m hroom]
      exact ⟨next, h.ledger.push hroom m⟩
    · rw [Redis.queuePush, if_pos hfull.ge]
      exact ⟨next + 1, h.ledger.displace hfull (by decide) m⟩
  obtain ⟨next', hledger⟩ := hledger
  refine ⟨_, next', rfl, h.maxsize, ?_, ?_, ?_⟩
  · rw [serverRun_concat]
    exact h.answers
  · rw [serverRun_concat]
    exact hitems
  · rw [hpushed]
    exact hledger

theorem pop_inStep (h : InStep ops mem taken next) :
    ∃ mem' taken' next', Operation.pop.onMemory mem = some mem' ∧ InStep (ops ++ [.pop]) mem' taken' next' := by
  have hpushed : pushed (ops ++ [.pop]) = pushed ops := by simp [pushed]
  obtain ⟨hanswer, hrest⟩ := RealRedis.queuePop_of_reverse h.items
  have hledger := h.ledger
  rw [Operation.onMemory, InMemoryRedis.queuePop, AsyncQueue.getNowait]
  cases hitems : mem.queue.items with
  | nil =>
      rw [hitems] at hanswer hrest hledger
      refine ⟨_, taken, next, rfl, h.maxsize, ?_, ?_, ?_⟩
      · rw [serverRun_concat, Operation.onServer, hanswer, ← h.answers]
        rfl
      · rw [serverRun_concat, Operation.onServer, hrest, hitems]
        rfl
      · rw [hpushed, hitems]
        simpa [Served.popped] using hledger
  | cons m rest =>
      rw [hitems] at hanswer hrest hledger
      refine ⟨_, taken ++ [next], next + 1, rfl, h.maxsize, ?_, ?_, ?_⟩
      · rw [serverRun_concat, Operation.onServer, hanswer, ← h.answers]
        rfl
      · rw [serverRun_concat, Operation.onServer, hrest]
        rfl
      · rw [hpushed]
        simpa [Served.popped] using hledger.pop

/-- Both queues give the same answers, their content is the same end of what has been pushed,
and a message that is lost had at least as many pushed after it as a queue holds. -/
theorem queues_agree (ops : List (Operation α)) :
    ∃ mem, memoryRun ops = some mem ∧ mem.answers = (serverRun ops).answers ∧
      (serverRun ops).queue.reverse = mem.queue.items ∧
      ∃ taken next, Ledger queueMaxLen (pushed ops) mem.popped mem.queue.items taken next := by
  have hsteps : ∃ mem taken next, memoryRun ops = some mem ∧ InStep ops mem taken next := by
    induction ops using List.reverseRecOn with
    | nil => exact ⟨_, [], 0, rfl, rfl, rfl, rfl, Ledger.empty⟩
    | append_singleton ops op ih =>
        obtain ⟨mem, taken, next, hrun, hstep⟩ := ih
        rw [memoryRun_concat hrun]
        cases op with
        | push m =>
            obtain ⟨mem', next', hmem, hstep'⟩ := push_inStep hstep m
            exact ⟨mem', taken, next', hmem, hstep'⟩
        | pop => exact pop_inStep hstep
  obtain ⟨mem, taken, next, hrun, hstep⟩ := hsteps
  exact ⟨mem, hrun, hstep.answers, hstep.items, taken, next, hstep.ledger⟩

end Autr.Infra.Queues
