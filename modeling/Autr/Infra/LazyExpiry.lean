import Autr.Async.Runs
import Autr.Infra.Redis
import Autr.Store.Expiring

namespace Autr.Infra.LazyExpiry

open Autr.Async Autr.Store Redis

/-- A time to live in seconds. -/
abbrev Ttl := { ttl : ℚ // 0 < ttl }

/-- A heartbeat is written with the text of the wall clock. -/
inductive Operation
  | set (key value : String) (ex : Option Ttl)
  | get (key : String) (default : Option String)
  | delete (key : String)
  | acquireLock (key : String) (ttl : Ttl)
  | releaseLock (key : String)
  | setHeartbeat (serviceName : String) (ttl : Ttl) (time : String)
  | getHeartbeat (serviceName : String)
  | markProcessed (sigId : String) (ttl : Ttl)
  | isProcessed (sigId : String)

inductive Answer
  | nothing
  | text (value : Option String)
  | flag (b : Bool)
  deriving DecidableEq

def heartbeatKey (serviceName : String) : String := "hb:" ++ serviceName

/-- The in-memory fallback, which drops an expired entry when a call meets it; the methods for
heartbeats and marks call `set` and `get`. -/
def inMemoryRedis (now : ℚ) (op : Operation) (s : Store) : Answer × Store :=
  match op with
  | .set key value ex => (.nothing, Redis.set now key value (ex.map Subtype.val) s)
  | .get key default => (.text ((Redis.get .inMemory now key s).1.or default), (Redis.get .inMemory now key s).2)
  | .delete key => (.nothing, Redis.releaseLock key s)
  | .acquireLock key ttl =>
      (.flag (Redis.acquireLock .inMemory now key ttl s).1, (Redis.acquireLock .inMemory now key ttl s).2)
  | .releaseLock key => (.nothing, Redis.releaseLock key s)
  | .setHeartbeat serviceName ttl time =>
      (.nothing, Redis.set now (heartbeatKey serviceName) time (some ttl.val) s)
  | .getHeartbeat serviceName =>
      (.text (Redis.get .inMemory now (heartbeatKey serviceName) s).1,
        (Redis.get .inMemory now (heartbeatKey serviceName) s).2)
  | .markProcessed sigId ttl => (.nothing, Redis.set now (processedKey sigId) "1" (some ttl.val) s)
  | .isProcessed sigId =>
      (.flag ((Redis.get .inMemory now (processedKey sigId) s).1.any (· ≠ "")),
        (Redis.get .inMemory now (processedKey sigId) s).2)

/-- A value until its time to live has passed. -/
def dated (now : ℚ) (value : String) (ttl : Option Ttl) : Entry := ⟨value, ttl.map (fun t => now + t.val)⟩

/-- The operations on a plain map of entries, which looks at no clock but to date them. A lock
is taken while its key has an entry, a heartbeat and a mark each have a key of their own, and a
mark counts unless someone has made it empty. -/
def plainMap (now : ℚ) (op : Operation) (m : Store) : Answer × Store :=
  match op with
  | .set key value ex => (.nothing, Function.update m key (some (dated now value ex)))
  | .get key default => (.text (((m key).map Entry.value).or default), m)
  | .delete key | .releaseLock key => (.nothing, Function.update m key none)
  | .acquireLock key ttl =>
      match m key with
      | some _ => (.flag false, m)
      | none => (.flag true, Function.update m key (some (dated now "1" ttl)))
  | .setHeartbeat serviceName ttl time =>
      (.nothing, Function.update m ("hb:" ++ serviceName) (some (dated now time ttl)))
  | .getHeartbeat serviceName => (.text ((m ("hb:" ++ serviceName)).map Entry.value), m)
  | .markProcessed sigId ttl => (.nothing, Function.update m ("processed:" ++ sigId) (some (dated now "1" ttl)))
  | .isProcessed sigId => (.flag ((m ("processed:" ++ sigId)).any (fun e => e.value ≠ "")), m)

/-- The map that removes each key at the instant its expiry passes. -/
def eagerRedis : ℚ → Operation → Store → Answer × Store := swept Entry.exp plainMap

variable {now : ℚ} {key : String} {s : Store}

theorem live_iff : Live .inMemory now key s ↔ (sweep Entry.exp now s key).isSome := by
  rw [Option.isSome_iff_exists]
  refine exists_congr (fun e => ?_)
  rw [sweep_eq_some]
  refine and_congr_right (fun _ => ?_)
  cases hexp : e.exp <;> simp [Entry.live, Backend.expired, Unexpired, hexp]

theorem unexpired_dated (value : String) (ttl : Option Ttl) : Unexpired Entry.exp now (dated now value ttl) := by
  intro t ht
  obtain ⟨ttl, -, rfl⟩ := Option.map_eq_some_iff.1 ht
  exact le_add_of_nonneg_right ttl.2.le

/-- An eviction is what a sweep does to one key. -/
theorem sweep_evict : sweep Entry.exp now (evict .inMemory now key s) = sweep Entry.exp now s := by
  by_cases hlive : Live .inMemory now key s
  · rw [evict_of_live hlive]
  · cases hs : s key with
    | none => simp [evict, hs]
    | some e =>
        have hdead : e.live .inMemory now = false := by
          by_contra hne
          exact hlive ⟨e, hs, by simpa using hne⟩
        have hexpired : ¬ Unexpired Entry.exp now e := by
          intro he
          exact hlive (live_iff.2 (Option.isSome_iff_exists.2 ⟨e, sweep_eq_some.2 ⟨hs, he⟩⟩))
        rw [evict, hs]
        simp only [hdead, Bool.false_eq_true, if_false]
        exact sweep_update_of_expired hs hexpired

/-- After an eviction the key has the entry that a sweep leaves it. -/
theorem evict_apply : evict .inMemory now key s key = sweep Entry.exp now s key := by
  by_cases hlive : Live .inMemory now key s
  · obtain ⟨e, he⟩ := Option.isSome_iff_exists.1 (live_iff.1 hlive)
    rw [evict_of_live hlive, he, (sweep_eq_some.1 he).1]
  · rw [evict_of_not_live hlive]
    exact (Option.not_isSome_iff_eq_none.1 (mt live_iff.2 hlive)).symm

/-- A call that reads a key finds there what a sweep leaves, and shows no more of the store. -/
theorem get_hides (now : ℚ) (key : String) (s : Store) :
    (Redis.get .inMemory now key s).1 = (sweep Entry.exp now s key).map Entry.value ∧
      sweep Entry.exp now (Redis.get .inMemory now key s).2 = sweep Entry.exp now (sweep Entry.exp now s) :=
  ⟨congrArg (Option.map Entry.value) evict_apply, sweep_evict.trans (sweep_sweep le_rfl).symm⟩

theorem set_dated (key value : String) (ex : Option Ttl) :
    Redis.set now key value (ex.map Subtype.val) s = Function.update s key (some (dated now value ex)) := by
  rw [Redis.set, dated]
  cases ex with
  | none => rfl
  | some ttl => simp [ttl.2.ne']

theorem set_hides (key value : String) (ex : Option Ttl) :
    sweep Entry.exp now (Redis.set now key value (ex.map Subtype.val) s) =
      sweep Entry.exp now (Function.update (sweep Entry.exp now s) key (some (dated now value ex))) := by
  rw [set_dated, sweep_update_some _ _ (unexpired_dated value ex), sweep_update_some _ _ (unexpired_dated value ex),
    sweep_sweep le_rfl]

theorem delete_hides (key : String) :
    sweep Entry.exp now (Redis.releaseLock key s) =
      sweep Entry.exp now (Function.update (sweep Entry.exp now s) key none) := by
  rw [Redis.releaseLock, sweep_update_none, sweep_update_none, sweep_sweep le_rfl]

theorem acquireLock_hides (now : ℚ) (key : String) (ttl : Ttl) (s : Store) :
    Answer.flag (Redis.acquireLock .inMemory now key ttl s).1 = (eagerRedis now (.acquireLock key ttl) s).1 ∧
      sweep Entry.exp now (Redis.acquireLock .inMemory now key ttl s).2 =
        sweep Entry.exp now (eagerRedis now (.acquireLock key ttl) s).2 := by
  have hentry : Unexpired Entry.exp now ⟨"1", some (now + ttl.val)⟩ := unexpired_dated "1" (some ttl)
  unfold Redis.acquireLock eagerRedis swept plainMap
  dsimp only
  rw [evict_apply]
  cases sweep Entry.exp now s key with
  | some e => exact ⟨rfl, sweep_evict.trans (sweep_sweep le_rfl).symm⟩
  | none =>
      refine ⟨rfl, ?_⟩
      simp only [Option.isSome_none, Bool.false_eq_true, if_false, dated, Option.map_some]
      rw [sweep_update_some _ _ hentry, sweep_update_some _ _ hentry, sweep_evict, sweep_sweep le_rfl]

/-- What is still in the store past its expiry shows in no call. -/
theorem inMemoryRedis_hides : Hides Entry.exp inMemoryRedis plainMap := by
  intro now op s
  cases op with
  | set key value ex => exact ⟨rfl, set_hides key value ex⟩
  | get key default =>
      obtain ⟨hvalue, hstore⟩ := get_hides now key s
      exact ⟨congrArg (fun v : Option String => Answer.text (v.or default)) hvalue, hstore⟩
  | delete key | releaseLock key => exact ⟨rfl, delete_hides key⟩
  | acquireLock key ttl => exact acquireLock_hides now key ttl s
  | setHeartbeat serviceName ttl time => exact ⟨rfl, set_hides ("hb:" ++ serviceName) time (some ttl)⟩
  | getHeartbeat serviceName =>
      obtain ⟨hvalue, hstore⟩ := get_hides now ("hb:" ++ serviceName) s
      exact ⟨congrArg Answer.text hvalue, hstore⟩
  | markProcessed sigId ttl => exact ⟨rfl, set_hides ("processed:" ++ sigId) "1" (some ttl)⟩
  | isProcessed sigId =>
      obtain ⟨hvalue, hstore⟩ := get_hides now ("processed:" ++ sigId) s
      refine ⟨congrArg Answer.flag ?_, hstore⟩
      exact (congrArg (Option.any (fun v : String => v ≠ "")) hvalue).trans Option.any_map

/-- A lock is acquired exactly when no entry under its key is unexpired. -/
def LocksFree (s : Store) (call : ℚ × Operation) : Prop :=
  ∀ key ttl, call.2 = .acquireLock key ttl →
    ((inMemoryRedis call.1 call.2 s).1 = .flag true ↔
      ¬ ∃ e, s key = some e ∧ Unexpired Entry.exp call.1 e)

theorem locksFree (s : Store) (call : ℚ × Operation) : LocksFree s call := by
  obtain ⟨now, op⟩ := call
  rintro key ttl rfl
  have hlive : Live .inMemory now key s ↔ ∃ e, s key = some e ∧ Unexpired Entry.exp now e := by
    simp only [live_iff, Option.isSome_iff_exists, sweep_eq_some]
  rw [← hlive, ← acquireLock_fst ttl.val]
  exact ⟨Answer.flag.inj, congrArg Answer.flag⟩

/-- At clock times that never go back, the fallback answers as the map does that removes each
key at the instant its expiry passes. -/
theorem expiry_unseen {calls : List (ℚ × Operation)}
    (hsorted : (calls.map Prod.fst).Pairwise (· ≤ ·)) (s : Store) :
    answers inMemoryRedis calls s = answers eagerRedis calls s ∧
      AlongRun (fun s call => (inMemoryRedis call.1 call.2 s).2) LocksFree s calls :=
  ⟨answers_of_hides inMemoryRedis_hides hsorted (fun _ _ => rfl),
    (alongRun_of_forall (D := fun _ => True) (fun _ _ => trivial)).mono (fun s call _ => locksFree s call)⟩

/-- A lock that outlives its time is acquired again, and a mark that does is not seen. -/
def staleCalls : List (ℚ × Operation) :=
  [(0, .acquireLock "lock:executor:BTCUSDT" ⟨10, by decide⟩), (1, .markProcessed "sig-1" ⟨5, by decide⟩),
    (6, .isProcessed "sig-1"), (10, .acquireLock "lock:executor:BTCUSDT" ⟨10, by decide⟩),
    (11, .isProcessed "sig-1"), (11, .acquireLock "lock:executor:BTCUSDT" ⟨10, by decide⟩)]

theorem stale_unseen :
    answers inMemoryRedis staleCalls (fun _ => none) = answers eagerRedis staleCalls (fun _ => none) ∧
      AlongRun (fun s call => (inMemoryRedis call.1 call.2 s).2) LocksFree (fun _ => none) staleCalls :=
  expiry_unseen (by decide +kernel) _

example : answers inMemoryRedis staleCalls (fun _ => none) =
    [.flag true, .nothing, .flag true, .flag false, .flag false, .flag true] := by decide +kernel

end Autr.Infra.LazyExpiry
