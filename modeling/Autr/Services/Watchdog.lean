import Autr.Decimal
import Mathlib.Data.List.Induction

namespace Autr.Services.Watchdog

open Decimal

inductive Service
  | collector
  | strategy
  | executor
  deriving DecidableEq

def services : List Service := [.collector, .strategy, .executor]

def Service.name : Service → String
  | .collector => "collector"
  | .strategy => "strategy"
  | .executor => "executor"

/-- The seconds after which a further alert is due, which the environment can set. -/
structure AlertThreshold where
  collector : ℤ := 120
  strategy : ℤ := 180
  executor : ℤ := 300

def AlertThreshold.get (T : AlertThreshold) : Service → ℤ
  | .collector => T.collector
  | .strategy => T.strategy
  | .executor => T.executor

inductive Notice
  | down (service : Service)
  | recovered (service : Service) (elapsed : ℚ)
  deriving DecidableEq

def Notice.service : Notice → Service
  | .down service => service
  | .recovered service _ => service

def Notice.msg : Notice → String
  | .down service =>
      "⚠️ [Watchdog] `" ++ service.name ++
        "` heartbeat 없음 — 서비스가 멈췄거나 재시작 중입니다. Docker restart 정책으로 복구 시도 중."
  | .recovered service elapsed =>
      "✅ [Watchdog] `" ++ service.name ++ "` 복구 확인 (" ++ toString (roundHalfEven elapsed) ++ "초 후)"

/-- The times of the last alerts; a zero stands for none since the service has come back. -/
abbrev LastAlert := Service → Option ℚ

/-- The time of a check, and which heartbeats it finds. -/
structure Check where
  now : ℚ
  present : Service → Bool

/-- What a check sends for one service, and the time of the last alert that it leaves. -/
def checkService (T : AlertThreshold) (c : Check) (service : Service) (lastAlert : Option ℚ) :
    List Notice × Option ℚ :=
  if c.present service then
    match lastAlert with
    | some last => if 0 < last then ([.recovered service (c.now - last)], some 0) else ([], lastAlert)
    | none => ([], lastAlert)
  else
    let last := lastAlert.getD 0
    if T.get service ≤ c.now - last then ([.down service], some c.now) else ([], lastAlert)

def checkEach (T : AlertThreshold) (c : Check) : List Service → LastAlert → List Notice × LastAlert
  | [], lastAlert => ([], lastAlert)
  | service :: rest, lastAlert =>
      let r := checkService T c service (lastAlert service)
      let q := checkEach T c rest (Function.update lastAlert service r.2)
      (r.1 ++ q.1, q.2)

def checkOnce (T : AlertThreshold) (c : Check) (lastAlert : LastAlert) : List Notice × LastAlert :=
  checkEach T c services lastAlert

/-- The watchdog starts without a last alert. -/
def after (T : AlertThreshold) (checks : List Check) : LastAlert :=
  checks.foldl (fun lastAlert c => (checkOnce T c lastAlert).2) (fun _ => none)

/-- What a check does, seen from one service. -/
def concerning (service : Service) (r : List Notice × LastAlert) : List Notice × Option ℚ :=
  (r.1.filter (fun notice => notice.service = service), r.2 service)

/-- What is sent for a service at a check that follows others. -/
def sent (T : AlertThreshold) (past : List Check) (c : Check) (service : Service) : List Notice :=
  (concerning service (checkOnce T c (after T past))).1

def Missing (service : Service) (c : Check) : Prop := c.present service = false

instance (service : Service) : DecidablePred (Missing service) :=
  fun c => inferInstanceAs (Decidable (c.present service = false))

/-- Some check has just found the heartbeat missing. -/
def Out (past : List Check) (service : Service) : Prop := ∃ b ∈ past.getLast?, Missing service b

/-- Every down alert in the outage that the past ends with is at least a threshold old. -/
def Apart (T : AlertThreshold) (past : List Check) (c : Check) (service : Service) : Prop :=
  ∀ before b mid, past = before ++ b :: mid → (∀ x ∈ b :: mid, Missing service x) →
    sent T before b service = [.down service] → T.get service ≤ c.now - b.now

/-- The clock never goes back, and starts as late as an epoch time does. -/
structure Epoch (T : AlertThreshold) (checks : List Check) : Prop where
  sorted : (checks.map Check.now).Pairwise (· ≤ ·)
  late : ∀ c ∈ checks.head?, 0 < c.now ∧ ∀ service, T.get service ≤ c.now

/-- What a check sends for a service, by what it and the check before have found. -/
structure Alerted (T : AlertThreshold) (past : List Check) (c : Check) (service : Service) : Prop where
  starts : Missing service c → ¬ Out past service → sent T past c service = [.down service]
  goesOn : Missing service c → Out past service →
    sent T past c service = [] ∨ sent T past c service = [.down service] ∧ Apart T past c service
  ends : ¬ Missing service c → Out past service → ∃ elapsed, sent T past c service = [.recovered service elapsed]
  quiet : ¬ Missing service c → ¬ Out past service → sent T past c service = []

section Check

variable {T : AlertThreshold} {c : Check} {service : Service}

theorem checkService_service {lastAlert : Option ℚ} :
    ∀ notice ∈ (checkService T c service lastAlert).1, notice.service = service := by
  unfold checkService
  split_ifs
  · cases lastAlert with
    | none => simp
    | some last =>
        dsimp only
        split_ifs
        · simp [Notice.service]
        · simp
  · dsimp only
    split_ifs
    · simp [Notice.service]
    · simp

/-- Within a check, the services have nothing to do with each other. -/
theorem checkEach_eq {rest : List Service} (hnodup : rest.Nodup) (lastAlert : LastAlert) :
    concerning service (checkEach T c rest lastAlert) =
      if service ∈ rest then checkService T c service (lastAlert service) else ([], lastAlert service) := by
  induction rest generalizing lastAlert with
  | nil => rfl
  | cons first rest ih =>
      obtain ⟨hfirst, hrest⟩ := List.nodup_cons.1 hnodup
      have hcons : concerning service (checkEach T c (first :: rest) lastAlert) =
          ((checkService T c first (lastAlert first)).1.filter (fun notice => notice.service = service) ++
              (concerning service (checkEach T c rest
                (Function.update lastAlert first (checkService T c first (lastAlert first)).2))).1,
            (concerning service (checkEach T c rest
              (Function.update lastAlert first (checkService T c first (lastAlert first)).2))).2) := by
        simp [concerning, checkEach]
      rw [hcons, ih hrest]
      by_cases hservice : service = first
      · subst hservice
        have hall : (checkService T c service (lastAlert service)).1.filter (fun notice => notice.service = service) =
            (checkService T c service (lastAlert service)).1 :=
          List.filter_eq_self.2 (fun notice hnotice => decide_eq_true (checkService_service notice hnotice))
        rw [hall]
        simp [hfirst]
      · have hnone : (checkService T c first (lastAlert first)).1.filter (fun notice => notice.service = service) =
            [] := by
          refine List.filter_eq_nil_iff.2 (fun notice hnotice heq => hservice ?_)
          rw [← checkService_service notice hnotice, of_decide_eq_true heq]
        rw [hnone, Function.update_of_ne hservice]
        simp [hservice]

theorem checkOnce_eq (T : AlertThreshold) (c : Check) (service : Service) (lastAlert : LastAlert) :
    concerning service (checkOnce T c lastAlert) = checkService T c service (lastAlert service) := by
  have hmem : service ∈ services := by cases service <;> decide
  rw [checkOnce, checkEach_eq (by decide), if_pos hmem]

theorem sent_eq (past : List Check) : sent T past c service = (checkService T c service (after T past service)).1 :=
  congrArg Prod.fst (checkOnce_eq T c service (after T past))

theorem after_concat (past : List Check) :
    after T (past ++ [c]) service = (checkService T c service (after T past service)).2 := by
  rw [after, List.foldl_append]
  exact congrArg Prod.snd (checkOnce_eq T c service (after T past))

end Check

/-- The last alert of the outage that goes on, in the number the watchdog keeps. -/
def Stands : Option ℚ → Option ℚ → Prop
  | none, lastAlert => lastAlert.getD 0 = 0
  | some t, lastAlert => lastAlert = some t ∧ 0 < t

/-- What the history of a service comes to, and the alert that it was left with. -/
structure Tracks (T : AlertThreshold) (service : Service) (past : List Check) (outage : Option ℚ) : Prop where
  stands : Stands outage (after T past service)
  out : Out past service ↔ outage.isSome
  latest : ∀ t ∈ outage, ∀ before b mid, past = before ++ b :: mid → (∀ x ∈ b :: mid, Missing service x) →
    sent T before b service = [.down service] → b.now ≤ t

/-- The turns of an outage, which is known by the time of its last alert. -/
inductive Turn (T : AlertThreshold) (c : Check) (service : Service) : Option ℚ → List Notice → Option ℚ → Prop
  | quiet (here : ¬ Missing service c) : Turn T c service none [] none
  | back (t : ℚ) (here : ¬ Missing service c) : Turn T c service (some t) [.recovered service (c.now - t)] none
  | first (gone : Missing service c) : Turn T c service none [.down service] (some c.now)
  | again (t : ℚ) (gone : Missing service c) (due : T.get service ≤ c.now - t) :
      Turn T c service (some t) [.down service] (some c.now)
  | waiting (t : ℚ) (gone : Missing service c) (early : c.now - t < T.get service) :
      Turn T c service (some t) [] (some t)

section Step

variable {T : AlertThreshold} {service : Service} {past : List Check} {c : Check}

/-- The number that is kept for a service takes the turns of its outages. -/
theorem checkService_turn {outage lastAlert : Option ℚ} (hstands : Stands outage lastAlert) (hpos : 0 < c.now)
    (hlate : T.get service ≤ c.now) :
    ∃ outage', Turn T c service outage (checkService T c service lastAlert).1 outage' ∧
      Stands outage' (checkService T c service lastAlert).2 := by
  unfold checkService
  cases hpresent : c.present service with
  | true =>
      have hhere : ¬ Missing service c := by simp [Missing, hpresent]
      rw [if_pos rfl]
      cases outage with
      | none =>
          cases lastAlert with
          | none => exact ⟨none, .quiet hhere, rfl⟩
          | some last =>
              have hzero : last = 0 := hstands
              dsimp only
              rw [if_neg (by simp [hzero])]
              exact ⟨none, .quiet hhere, hstands⟩
      | some t =>
          obtain ⟨rfl, ht⟩ := hstands
          dsimp only
          rw [if_pos ht]
          exact ⟨none, .back t hhere, rfl⟩
  | false =>
      dsimp only
      rw [if_neg Bool.false_ne_true]
      cases outage with
      | none =>
          have hzero : lastAlert.getD 0 = 0 := hstands
          rw [if_pos (by rwa [hzero, sub_zero])]
          exact ⟨some c.now, .first hpresent, rfl, hpos⟩
      | some t =>
          obtain ⟨rfl, ht⟩ := hstands
          rw [Option.getD_some]
          split_ifs with hdue
          · exact ⟨some c.now, .again t hpresent hdue, rfl, hpos⟩
          · exact ⟨some t, .waiting t hpresent (not_le.1 hdue), rfl, ht⟩

theorem out_concat : Out (past ++ [c]) service ↔ Missing service c := by
  simp [Out]

/-- An alert before the last check of an outage is one of the outage as it stood before. -/
theorem split_concat {before mid : List Check} {b : Check} (h : past ++ [c] = before ++ b :: mid) :
    (mid = [] ∧ b = c ∧ before = past) ∨ ∃ mid', mid = mid' ++ [c] ∧ past = before ++ b :: mid' := by
  rcases List.eq_nil_or_concat mid with rfl | ⟨mid', x, rfl⟩
  · obtain ⟨hpast, hlast⟩ := List.append_inj' h rfl
    exact .inl ⟨rfl, (List.cons.inj hlast).1.symm, hpast.symm⟩
  · rw [List.concat_eq_append, ← List.cons_append, ← List.append_assoc] at h
    obtain ⟨hpast, hlast⟩ := List.append_inj' h rfl
    obtain rfl := (List.cons.inj hlast).1
    exact .inr ⟨mid', List.concat_eq_append, hpast⟩

theorem out_of_split {before mid : List Check} {b : Check} (h : past = before ++ b :: mid)
    (hgone : ∀ x ∈ b :: mid, Missing service x) : Out past service := by
  obtain ⟨last, hlast⟩ := Option.isSome_iff_exists.1 (List.getLast?_isSome.2 (List.cons_ne_nil b mid))
  refine ⟨last, ?_, hgone last (List.mem_of_getLast? hlast)⟩
  rw [h, List.getLast?_append_cons]
  exact hlast

theorem tracks_start : Tracks T service [] none where
  stands := rfl
  out := by simp [Out]
  latest t ht := nomatch ht

/-- Each check takes the outage on by one turn. -/
theorem tracks_step {outage : Option ℚ} (h : Tracks T service past outage) (hpos : 0 < c.now)
    (hlate : T.get service ≤ c.now) (hsorted : ∀ b ∈ past, b.now ≤ c.now) :
    ∃ outage', Turn T c service outage (sent T past c service) outage' ∧ Tracks T service (past ++ [c]) outage' := by
  obtain ⟨outage', hturn, hstands⟩ := checkService_turn h.stands hpos hlate
  rw [← sent_eq] at hturn
  refine ⟨outage', hturn, by rwa [after_concat], ?_, ?_⟩ <;> generalize hsent : sent T past c service = notices at hturn
  · rw [out_concat]
    cases hturn with
    | quiet here | back t here => exact iff_of_false here Bool.false_ne_true
    | first gone | again t gone due | waiting t gone early => exact iff_of_true gone rfl
  · intro t ht before b mid hsplit hgone hdown
    rcases split_concat hsplit with ⟨-, rfl, rfl⟩ | ⟨mid', rfl, hpast⟩
    · -- The alert is that of the check itself.
      obtain rfl := hsent.symm.trans hdown
      cases hturn with
      | first | again => exact (Option.some.inj ht).le
    · have hmem : b ∈ past := by simp [hpast]
      have hold : ∀ x ∈ b :: mid', Missing service x := fun x hx => hgone x (by
        rw [← List.cons_append]
        exact List.mem_append_left _ hx)
      cases hturn with
      | quiet | back => exact nomatch ht
      | first =>
          have hout := h.out.1 (out_of_split hpast hold)
          exact absurd hout Bool.false_ne_true
      | again => exact (hsorted b hmem).trans (Option.some.inj ht).le
      | waiting t' => exact h.latest t ht before b mid' hpast hold hdown

end Step

section Runs

variable {T : AlertThreshold} {service : Service}

theorem Epoch.late_all {checks : List Check} (h : Epoch T checks) (service : Service) :
    ∀ c ∈ checks, 0 < c.now ∧ T.get service ≤ c.now := by
  cases checks with
  | nil => exact fun c hc => nomatch hc
  | cons first rest =>
      obtain ⟨hpos, hlate⟩ := h.late first rfl
      obtain ⟨hfirst, -⟩ := List.pairwise_cons.1 h.sorted
      intro c hc
      have hle : first.now ≤ c.now := by
        rcases List.mem_cons.1 hc with rfl | hc
        · exact le_rfl
        · exact hfirst _ (List.mem_map_of_mem hc)
      exact ⟨hpos.trans_le hle, (hlate service).trans hle⟩

theorem Epoch.earlier {past : List Check} {c : Check} (h : Epoch T (past ++ [c])) :
    Epoch T past ∧ ∀ b ∈ past, b.now ≤ c.now := by
  have hsorted := h.sorted
  rw [List.map_append, List.pairwise_append] at hsorted
  refine ⟨⟨hsorted.1, fun first hfirst => h.late first ?_⟩, fun b hb => ?_⟩
  · rw [List.head?_append, Option.mem_def.1 hfirst]
    rfl
  · exact hsorted.2.2 _ (List.mem_map_of_mem hb) _ (List.mem_singleton_self _)

theorem tracks_run {past : List Check} (h : Epoch T past) (service : Service) :
    ∃ outage, Tracks T service past outage := by
  induction past using List.reverseRecOn with
  | nil => exact ⟨none, tracks_start⟩
  | append_singleton past c ih =>
      obtain ⟨hpast, hsorted⟩ := h.earlier
      obtain ⟨hpos, hlate⟩ := h.late_all service c (by simp)
      obtain ⟨outage, htracks⟩ := ih hpast
      obtain ⟨outage', -, htracks'⟩ := tracks_step htracks hpos hlate hsorted
      exact ⟨outage', htracks'⟩

end Runs

/-- At each check a service is reported down when its outage starts, again after a threshold
at the earliest, and back when the outage ends; nothing else is sent for it. -/
theorem outages_alerted {T : AlertThreshold} {past : List Check} {c : Check} (h : Epoch T (past ++ [c]))
    (service : Service) : Alerted T past c service := by
  obtain ⟨hpast, hsorted⟩ := h.earlier
  obtain ⟨hpos, hlate⟩ := h.late_all service c (by simp)
  obtain ⟨outage, htracks⟩ := tracks_run hpast service
  obtain ⟨outage', hturn, -⟩ := tracks_step htracks hpos hlate hsorted
  have hout := htracks.out
  have hlatest := htracks.latest
  generalize hsent : sent T past c service = notices at hturn
  cases hturn with
  | quiet here => exact ⟨fun hgone _ => absurd hgone here, fun hgone _ => absurd hgone here,
      fun _ hin => absurd (hout.1 hin) Bool.false_ne_true, fun _ _ => hsent⟩
  | back t here => exact ⟨fun hgone _ => absurd hgone here, fun hgone _ => absurd hgone here,
      fun _ _ => ⟨_, hsent⟩, fun _ hup => absurd (hout.2 rfl) hup⟩
  | first gone => exact ⟨fun _ _ => hsent, fun _ hin => absurd (hout.1 hin) Bool.false_ne_true,
      fun here _ => absurd gone here, fun here _ => absurd gone here⟩
  | again t gone due =>
      refine ⟨fun _ hup => absurd (hout.2 rfl) hup, fun _ _ => .inr ⟨hsent, ?_⟩, fun here _ => absurd gone here,
        fun here _ => absurd gone here⟩
      intro before b mid hsplit hgone hdown
      exact due.trans (sub_le_sub_left (hlatest t rfl before b mid hsplit hgone hdown) c.now)
  | waiting t gone early => exact ⟨fun _ hup => absurd (hout.2 rfl) hup, fun _ _ => .inl hsent,
      fun here _ => absurd gone here, fun here _ => absurd gone here⟩

/-- The collector is away for three checks; the others are up. -/
def collectorAway (now : ℚ) : Check := ⟨now, fun service => service ≠ .collector⟩

theorem outages_alerted_collector :
    Alerted {} [collectorAway 1000, collectorAway 1060] (collectorAway 1120) .collector :=
  outages_alerted ⟨by decide +kernel, fun c hc => by
    cases hc
    exact ⟨by decide +kernel, fun service => by cases service <;> decide +kernel⟩⟩ .collector

example : sent {} [collectorAway 1000, collectorAway 1060] (collectorAway 1120) .collector = [.down .collector] := by
  decide +kernel

end Autr.Services.Watchdog
