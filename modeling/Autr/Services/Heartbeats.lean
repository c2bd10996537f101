import Autr.Infra.LazyExpiry
import Autr.Services.Watchdog
import Mathlib.Tactic.Linarith
import Mathlib.Tactic.NormNum

namespace Autr.Services.Heartbeats

open Infra Redis LazyExpiry Watchdog

/-- What happens in the store that the services and the watchdog share: a service records its
heartbeat, the watchdog makes a check, and any other entry is written or removed. -/
inductive Event
  | beat (service : Service) (ttl : Ttl) (time : String)
  | check
  | other (key : String) (entry : Option Entry)

/-- Events with their times, the newest first. -/
abbrev History := List (ℚ × Event)

structure World where
  store : Store
  lastAlert : LastAlert

def serviceKey (service : Service) : String := heartbeatKey service.name

/-- The heartbeats that a check reads, one after another. -/
def readEach (b : Backend) (now : ℚ) : List Service → Store → (Service → Bool) × Store
  | [], s => (fun _ => false, s)
  | service :: rest, s =>
      let r := get b now (serviceKey service) s
      let q := readEach b now rest r.2
      (Function.update q.1 service r.1.isSome, q.2)

def World.checkOnce (b : Backend) (T : AlertThreshold) (now : ℚ) (w : World) : List Notice × World :=
  let r := readEach b now services w.store
  let q := Watchdog.checkOnce T ⟨now, r.1⟩ w.lastAlert
  (q.1, ⟨r.2, q.2⟩)

def World.step (b : Backend) (T : AlertThreshold) (l : ℚ × Event) (w : World) : World :=
  match l.2 with
  | .beat service ttl time => { w with store := set l.1 (serviceKey service) time (some ttl.val) w.store }
  | .check => (w.checkOnce b T l.1).2
  | .other key entry => { w with store := Function.update w.store key entry }

def World.after (b : Backend) (T : AlertThreshold) (past : History) : World :=
  past.foldr (World.step b T) ⟨fun _ => none, fun _ => none⟩

/-- When the last heartbeat of a service expires. -/
def expiryOf (service : Service) : History → Option ℚ
  | [] => none
  | (t, .beat s ttl _) :: past => if s = service then some (t + ttl) else expiryOf service past
  | _ :: past => expiryOf service past

/-- The service has recorded a heartbeat, and the last one has not expired. -/
def heard (b : Backend) (past : History) (now : ℚ) (service : Service) : Bool :=
  (expiryOf service past).any (fun exp => !b.expired now exp)

/-- What a check has to find, by the heartbeats alone. -/
def found (b : Backend) (past : History) (now : ℚ) : Check := ⟨now, heard b past now⟩

/-- The checks of a history in the order of time. -/
def checksOf (b : Backend) : History → List Check
  | [] => []
  | (now, .check) :: past => checksOf b past ++ [found b past now]
  | _ :: past => checksOf b past

/-- Time does not go back and is that of an epoch, and no one else writes to a heartbeat. -/
structure Orderly (T : AlertThreshold) (past : History) : Prop where
  sorted : past.Pairwise (fun later earlier => earlier.1 ≤ later.1)
  late : ∀ l ∈ past, 0 < l.1 ∧ ∀ service, T.get service ≤ l.1
  own : ∀ l ∈ past, ∀ key entry service, l.2 = .other key entry → key ≠ serviceKey service

section Store

variable {b : Backend} {now later : ℚ} {s : Store} {key k : String}

end Store

section Run

variable {b : Backend} {T : AlertThreshold} {past : History} {now : ℚ} {w : World}

theorem Orderly.tail {l : ℚ × Event} (h : Orderly T (l :: past)) : Orderly T past :=
  ⟨(List.pairwise_cons.1 h.sorted).2, fun l hl => h.late l (List.mem_cons_of_mem _ hl),
    fun l hl => h.own l (List.mem_cons_of_mem _ hl)⟩

end Run

/-- The check before was the last one, and did not hear the service. -/
def WasOut (b : Backend) (past : History) (service : Service) : Prop := Out (checksOf b past) service

/-- What a check sends for a service, by the heartbeats alone. -/
structure Reported (b : Backend) (past : History) (now : ℚ) (service : Service) (notices : List Notice) : Prop where
  steady : heard b past now service = true → ¬ WasOut b past service → notices = []
  back : heard b past now service = true → WasOut b past service → ∃ elapsed, notices = [.recovered service elapsed]
  lost : heard b past now service = false → ¬ WasOut b past service → notices = [.down service]
  away : heard b past now service = false → WasOut b past service → notices = [] ∨ notices = [.down service]

end Autr.Services.Heartbeats
