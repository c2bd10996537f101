import Autr.Async.Protocol
import Autr.Services.Executor
import Mathlib.Data.Fintype.Defs

namespace Autr.Services.SymbolLock

open Autr.Async Autr.Infra Redis Executor

/-- The moment a call acquired the lock of a symbol, while it has not released it. -/
def lockProtocol (symbol : String) : Protocol Op Op.Res Exc (Option ℚ) where
  start := none
  next q t op r := match op, r with
    | .acquireLock key _, .ok true => if key = executorLock symbol then some t else q
    | .releaseLock key, _ => if key = executorLock symbol then none else q
    | _, _ => q
  allows q op := op.key = some (executorLock symbol) →
    op = if q.isNone then .acquireLock (executorLock symbol) lockTtl else .releaseLock (executorLock symbol)
  final q := q = none

def Unlocking (op : Op) : Prop := ∀ symbol, op.key ≠ some (executorLock symbol)

theorem unlocking_of_permitted {symbol sigId : String} {side : Bybit.Side} (op : Op)
    (h : Permitted symbol side sigId op) :
    Unlocking op := by
  intro s hk
  cases op with
  | acquireLock | releaseLock => exact h
  | get | set => exact processedKey_ne_executorLock sigId s (h ▸ Option.some.inj hk)
  | _ => cases hk

theorem body_unlocking (call : Call) : call.body.Uses Unlocking :=
  call.body_permitted.mono unlocking_of_permitted

theorem next_of_key_ne {symbol : String} {op : Op} (h : op.key ≠ some (executorLock symbol)) (q : Option ℚ) (t : ℚ)
    (r : Except Exc op.Res) : (lockProtocol symbol).next q t op r = q := by
  cases op with
  | acquireLock key ttl =>
      have hk : key ≠ executorLock symbol := by simpa [Op.key] using h
      rcases r with _ | _ | _ <;> simp [lockProtocol, hk]
  | releaseLock key =>
      have hk : key ≠ executorLock symbol := by simpa [Op.key] using h
      simp [lockProtocol, hk]
  | _ => rfl

theorem unlocking_keeps (symbol : String) {op : Op} (h : Unlocking op) (q : Option ℚ) :
    (lockProtocol symbol).allows q op ∧ ∀ t r, (lockProtocol symbol).next q t op r = q :=
  ⟨fun hk => absurd hk (h symbol), next_of_key_ne (h symbol) q⟩

/-- A section under the lock keeps the lock, and its release ends the hold on every way out. -/
theorem call_follows (symbol : String) (call : Call) :
    (lockProtocol symbol).Follows none call.prog := by
  have hbody : ∀ q, call.body.wp (lockProtocol symbol).spec (fun _ q' => q' = q) q := fun q =>
    (lockProtocol symbol).wp_of_uses (fun op hop => unlocking_keeps symbol hop q) _ (body_unlocking call)
  rw [Call.prog_eq, Protocol.Follows, withLock, Prog.wp_bind, Prog.wp_perform]
  by_cases hs : call.symbol = symbol
  · subst hs
    refine ⟨fun _ => rfl, fun t r => ?_⟩
    rcases r with e | _ | _
    · rfl
    · rfl
    · simp only [Prog.out_ok, if_true, Prog.wp_ensure, lockProtocol]
      refine Prog.wp_mono (lockProtocol call.symbol).spec_mono _ (fun r q hq => ?_) _ (hbody (some t))
      subst hq
      rw [Prog.wp_perform]
      refine ⟨fun _ => rfl, fun t' r' => ?_⟩
      rcases r' with e | u <;> simp [Prog.out]
  · have hk : executorLock call.symbol ≠ executorLock symbol := fun h => hs (executorLock_inj.1 h)
    refine ⟨fun h => absurd (Option.some.inj h) hk, fun t r => ?_⟩
    rcases r with e | _ | _
    · rfl
    · rfl
    · simp only [Prog.out_ok, if_true, Prog.wp_ensure, lockProtocol, hk, if_false]
      refine Prog.wp_mono (lockProtocol symbol).spec_mono _ (fun r q hq => ?_) _ (hbody none)
      subst hq
      rw [Prog.wp_perform]
      refine ⟨fun h => absurd (Option.some.inj h) hk, fun t' r' => ?_⟩
      rcases r' with e | u <;> simp [Prog.out, hk]

variable {ι : Type} [DecidableEq ι]

abbrev Calls (ι : Type) := Conf ι Op Op.Res Exc World Outcome

def begin (calls : ι → Call) (w : World) : Calls ι := start (fun i => (calls i).prog) w

def heldSince (symbol : String) (x : Calls ι) (i : ι) : Option ℚ := phase (lockProtocol symbol) i x.trace

def entry (symbol : String) (x : Calls ι) : Option Entry := x.world.redis (executorLock symbol)

def LockDisciplined (symbol : String) (x : Calls ι) : Prop := Disciplined (fun _ => lockProtocol symbol) x

theorem begin_disciplined (symbol : String) (calls : ι → Call) (w : World) :
    LockDisciplined symbol (begin calls w) :=
  disciplined_start (P := fun _ => lockProtocol symbol) (fun i => call_follows symbol (calls i)) w

variable {S : Setting} {symbol : String} {x : Calls ι}

/-- What one call does to the lock of a symbol: nothing, an acquire whose answer is lost,
an acquire, or a release. -/
inductive LockStep (S : Setting) (symbol : String) (x : Calls ι) (i : ι) (c : Env) (x' : Calls ι) : Prop
  | unchanged (held : heldSince symbol x' = heldSince symbol x) (kept : entry symbol x' = entry symbol x)
      (busy : (x.task i).next = some (.acquireLock (executorLock symbol) lockTtl) → c.fault = .none →
        Live S.backend (x.world.now + c.elapsed) (executorLock symbol) x.world.redis)
  | orphaned (fault : c.fault = .late) (held : heldSince symbol x' = heldSince symbol x)
      (taken : entry symbol x' = some ⟨"1", some (x.world.now + c.elapsed + lockTtl)⟩)
  | acquired (next : (x.task i).next = some (.acquireLock (executorLock symbol) lockTtl))
      (fault : c.fault = .none) (fresh : heldSince symbol x i = none) (time : x'.world.now = x.world.now + c.elapsed)
      (free : ¬ Live S.backend (x.world.now + c.elapsed) (executorLock symbol) x.world.redis)
      (held : heldSince symbol x' =
        Function.update (heldSince symbol x) i (some (x.world.now + c.elapsed)))
      (taken : entry symbol x' = some ⟨"1", some (x.world.now + c.elapsed + lockTtl)⟩)
  | released (next : (x.task i).next = some (.releaseLock (executorLock symbol)))
      (holder : (heldSince symbol x i).isSome)
      (held : heldSince symbol x' = Function.update (heldSince symbol x) i none)

theorem heldSince_cons (e : Event ι Op Op.Res Exc Outcome) (w : World)
    (task : ι → Svc Outcome) :
    heldSince symbol ⟨w, task, e :: x.trace⟩ = Function.update (heldSince symbol x) e.task
      ((lockProtocol symbol).next (heldSince symbol x e.task) e.time e.op e.result) :=
  phases_cons (fun _ => lockProtocol symbol) e x.trace

theorem heldSince_kept {e : Event ι Op Op.Res Exc Outcome} (w : World) (task : ι → Svc Outcome)
    (h : (lockProtocol symbol).next (heldSince symbol x e.task) e.time e.op e.result = heldSince symbol x e.task) :
    heldSince symbol ⟨w, task, e :: x.trace⟩ = heldSince symbol x := by
  rw [heldSince_cons, h, Function.update_eq_self]

section Acquire

variable {i : ι} {c : Env} {t : ℚ} {q : Svc Outcome}

abbrev tried (S : Setting) (symbol : String) (x : Calls ι) (i : ι) (c : Env) (t : ℚ) (q : Svc Outcome) : Calls ι :=
  x.answered i t (.acquireLock (executorLock symbol) lockTtl)
    (exec S (.acquireLock (executorLock symbol) lockTtl) c x.world).1
    (exec S (.acquireLock (executorLock symbol) lockTtl) c x.world).2 q

theorem acquire_busy (hq : heldSince symbol x i = none)
    (hl : Live S.backend (x.world.now + c.elapsed) (executorLock symbol) x.world.redis) :
    LockStep S symbol x i c (tried S symbol x i c t q) := by
  have hr : acquireLock S.backend (x.world.now + c.elapsed) (executorLock symbol) lockTtl x.world.redis =
      (false, x.world.redis) :=
    Prod.ext (Bool.eq_false_iff.2 (fun h => (acquireLock_fst lockTtl).1 h hl)) (acquireLock_snd_of_live lockTtl hl)
  refine .unchanged (heldSince_kept _ _ ?_) ?_ (fun _ _ => hl)
  · rw [hq]
    cases hf : c.fault <;> simp [exec, Fault.apply, hr, hf, lockProtocol]
  · cases hf : c.fault <;> simp [entry, exec, Fault.apply, hr, hf]

theorem acquire_free (hq : heldSince symbol x i = none)
    (hnext : (x.task i).next = some (.acquireLock (executorLock symbol) lockTtl))
    (hl : ¬ Live S.backend (x.world.now + c.elapsed) (executorLock symbol) x.world.redis)
    (ht : t = x.world.now + c.elapsed) :
    LockStep S symbol x i c (tried S symbol x i c t q) := by
  have hr := (acquireLock_fst lockTtl).2 hl
  have he := acquireLock_snd_of_not_live lockTtl hl
  cases hf : c.fault with
  | none =>
      refine .acquired hnext hf hq (exec_now _) hl ?_ ?_
      · rw [heldSince_cons]
        simp [exec, Fault.apply, hr, hf, lockProtocol, ht]
      · simpa [entry, exec, Fault.apply, hf] using he
  | lost =>
      refine .unchanged (heldSince_kept _ _ ?_) (by simp [entry, exec, Fault.apply, hf])
        (fun _ h => absurd (hf.symm.trans h) (by simp))
      rw [hq]
      simp [exec, Fault.apply, hf, lockProtocol]
  | late =>
      refine .orphaned hf (heldSince_kept _ _ ?_) (by simpa [entry, exec, Fault.apply, hf] using he)
      rw [hq]
      simp [exec, Fault.apply, hf, lockProtocol]

end Acquire

theorem lock_step (hd : LockDisciplined symbol x) (i : ι) (c : Env) :
    LockStep S symbol x i c (step (handler S) x (i, c)) := by
  rcases step_cases (handler S) x i c with ⟨hn, hs⟩ | ⟨op, k, hp, hs⟩
  · rw [hs]
    exact .unchanged rfl rfl (fun h => absurd (hn.symm.trans h) (by simp))
  have hnext : (x.task i).next = some op := by rw [hp]; rfl
  rw [hs]
  by_cases hk : op.key = some (executorLock symbol)
  · have hop := hd.allows hp hk
    change op = if (heldSince symbol x i).isNone then _ else _ at hop
    cases hq : heldSince symbol x i with
    | some t =>
        rw [hq] at hop
        subst hop
        refine .released hnext (by simp [hq]) ?_
        rw [heldSince_cons, hq]
        simp [lockProtocol]
    | none =>
        rw [hq] at hop
        subst hop
        by_cases hl : Live S.backend (x.world.now + c.elapsed) (executorLock symbol) x.world.redis
        · exact acquire_busy hq hl
        · exact acquire_free hq hnext hl (exec_now _)
  · refine .unchanged (heldSince_kept _ _ (next_of_key_ne hk _ _ _)) (exec_redis_of_ne hk) (fun h => absurd ?_ hk)
    rw [Option.some.inj (hnext.symm.trans h)]
    rfl

/-- At most one call is between its acquire of the lock and its release. -/
def AtMostOne (symbol : String) (x : Calls ι) : Prop :=
  ∀ i j, (heldSince symbol x i).isSome → (heldSince symbol x j).isSome → i = j

/-- While a call holds the lock its entry is in the store, whether it has expired or not. -/
def Backed (symbol : String) (x : Calls ι) : Prop :=
  ∀ i t, heldSince symbol x i = some t →
    t ≤ x.world.now ∧ ∃ v exp, entry symbol x = some ⟨v, some exp⟩ ∧ t + lockTtl ≤ exp

/-- A call that acquires the lock finds nobody inside whose time to live has run out. -/
def Timely (S : Setting) (symbol : String) (x : Calls ι) (i : ι) (c : Env) : Prop :=
  (x.task i).next = some (.acquireLock (executorLock symbol) lockTtl) → c.fault = .none →
    ∀ j, ∀ t ∈ heldSince symbol x j, S.backend.expired (x.world.now + c.elapsed) (t + lockTtl) = false

instance [Fintype ι] (i : ι) (c : Env) : Decidable (Timely S symbol x i c) :=
  inferInstanceAs (Decidable (_ → _ → ∀ j, ∀ t ∈ heldSince symbol x j, _))

theorem expired_of_free {now : ℚ} (hb : Backed symbol x)
    (h : ¬ Live S.backend now (executorLock symbol) x.world.redis) {j : ι} {t : ℚ}
    (hj : heldSince symbol x j = some t) : S.backend.expired now (t + lockTtl) = true := by
  obtain ⟨-, v, exp, he, hle⟩ := hb j t hj
  exact expired_mono S.backend hle (expired_of_not_live he h)

theorem atMostOne_step {i : ι} {c : Env} {x' : Calls ι} (h : LockStep S symbol x i c x')
    (hb : Backed symbol x) (ha : AtMostOne symbol x) (ht : Timely S symbol x i c) : AtMostOne symbol x' := by
  intro j k hj hk
  cases h with
  | unchanged held => rw [held] at hj hk; exact ha j k hj hk
  | orphaned _ held => rw [held] at hj hk; exact ha j k hj hk
  | acquired next fault _ _ free held =>
      have hnone : ∀ m, (heldSince symbol x m).isSome → False := by
        intro m hm
        obtain ⟨t, hmt⟩ := Option.isSome_iff_exists.1 hm
        have := expired_of_free hb free hmt
        rw [ht next fault m t hmt] at this
        cases this
      have hi : ∀ m, (heldSince symbol x' m).isSome → m = i := by
        intro m hm
        by_contra hmi
        rw [held, Function.update_of_ne hmi] at hm
        exact hnone m hm
      rw [hi j hj, hi k hk]
  | released _ _ held =>
      have hof : ∀ m, (heldSince symbol x' m).isSome → (heldSince symbol x m).isSome := by
        intro m hm
        rw [held] at hm
        by_cases hmi : m = i
        · rw [hmi, Function.update_self] at hm
          cases hm
        · rwa [Function.update_of_ne hmi] at hm
      exact ha j k (hof j hj) (hof k hk)

theorem now_step_le (i : ι) (c : Env) : x.world.now ≤ (step (handler S) x (i, c)).world.now := by
  rcases step_cases (handler S) x i c with ⟨_, hs⟩ | ⟨op, k, _, hs⟩
  · rw [hs]
  · rw [hs]
    exact le_of_le_of_eq (le_add_of_nonneg_right c.elapsed_nonneg) (exec_now op).symm

theorem backed_step {i : ι} {c : Env} {x' : Calls ι} (h : LockStep S symbol x i c x')
    (hnow : x.world.now ≤ x'.world.now) (hb : Backed symbol x) (ha : AtMostOne symbol x) :
    Backed symbol x' := by
  intro j t hj
  have hlater : ∀ m s, heldSince symbol x m = some s → s + lockTtl ≤ x.world.now + c.elapsed + lockTtl :=
    fun m s hm => add_le_add_left ((hb m s hm).1.trans (le_add_of_nonneg_right c.elapsed_nonneg)) _
  cases h with
  | unchanged held kept =>
      rw [held] at hj
      obtain ⟨hle, he⟩ := hb j t hj
      exact ⟨hle.trans hnow, by rw [kept]; exact he⟩
  | orphaned _ held taken =>
      rw [held] at hj
      exact ⟨(hb j t hj).1.trans hnow, _, _, taken, hlater j t hj⟩
  | acquired _ _ _ time _ held taken =>
      by_cases hji : j = i
      · rw [held, hji, Function.update_self] at hj
        cases hj
        exact ⟨time.ge, _, _, taken, le_rfl⟩
      · rw [held, Function.update_of_ne hji] at hj
        exact ⟨(hb j t hj).1.trans hnow, _, _, taken, hlater j t hj⟩
  | released _ holder held =>
      -- the key is deleted whoever has set it, but the only holder has just left
      have hji : j ≠ i := by
        rintro rfl
        rw [held, Function.update_self] at hj
        cases hj
      rw [held, Function.update_of_ne hji] at hj
      exact absurd (ha j i (by simp [hj]) holder) hji

structure LockKept (symbol : String) (x : Calls ι) : Prop where
  exclusive : AtMostOne symbol x
  backed : Backed symbol x
  disciplined : LockDisciplined symbol x

theorem lockKept_begin (symbol : String) (calls : ι → Call) (w : World) : LockKept symbol (begin calls w) where
  exclusive _ _ h := by cases h
  backed _ _ h := by cases h
  disciplined := begin_disciplined symbol calls w

theorem lockKept_step (h : LockKept symbol x) {i : ι} {c : Env} (ht : Timely S symbol x i c) :
    LockKept symbol (step (handler S) x (i, c)) := by
  have hs := lock_step (S := S) h.disciplined i c
  exact ⟨atMostOne_step hs h.backed h.exclusive ht, backed_step hs (now_step_le i c) h.backed h.exclusive,
    disciplined_step _ _ h.disciplined i c⟩

/-- Without faults the entry of the store is that of the call inside. -/
def Exact (symbol : String) (x : Calls ι) : Prop :=
  ∀ i t, heldSince symbol x i = some t → entry symbol x = some ⟨"1", some (t + lockTtl)⟩

theorem exact_step {i : ι} {c : Env} {x' : Calls ι} (h : LockStep S symbol x i c x') (hf : c.fault = .none)
    (he : Exact symbol x) (ha : AtMostOne symbol x) (ha' : AtMostOne symbol x') : Exact symbol x' := by
  intro j t hj
  cases h with
  | unchanged held kept =>
      rw [held] at hj
      rw [kept]
      exact he j t hj
  | orphaned late => cases hf.symm.trans late
  | acquired _ _ _ _ _ held taken =>
      have hji : j = i := ha' j i (by simp [hj]) (by simp [held])
      rw [held, hji, Function.update_self] at hj
      cases hj
      exact taken
  | released _ holder held =>
      by_cases hji : j = i
      · rw [held, hji, Function.update_self] at hj
        cases hj
      · rw [held, Function.update_of_ne hji] at hj
        exact absurd (ha j i (by simp [hj]) holder) hji

theorem timely_of_atMostOne {i : ι} {c : Env} {x' : Calls ι} (h : LockStep S symbol x i c x')
    (he : Exact symbol x) (ha' : AtMostOne symbol x') : Timely S symbol x i c := by
  intro next fault j t hj
  cases h with
  | unchanged _ _ busy =>
      obtain ⟨e, hentry, hlive⟩ := busy next fault
      cases (he j t hj).symm.trans hentry
      simpa [Entry.live] using hlive
  | orphaned late => cases fault.symm.trans late
  | acquired _ _ fresh _ _ held =>
      have hji : j ≠ i := by
        rintro rfl
        cases fresh.symm.trans hj
      have hj' : heldSince symbol x' j = some t := by rw [held, Function.update_of_ne hji, hj]
      exact absurd (ha' j i (by simp [hj']) (by simp [held])) hji
  | released next' => cases next.symm.trans next'

theorem along_timely {ls : List (ι × Env)} (hf : ∀ l ∈ ls, l.2.fault = .none)
    (hd : LockDisciplined symbol x) (he : Exact symbol x)
    (ha : Always (handler S) (AtMostOne symbol) x ls) : Along (handler S) (Timely S symbol) x ls := by
  induction ls generalizing x with
  | nil => trivial
  | cons l ls ih =>
      have hs := lock_step (S := S) hd l.1 l.2
      have ha' : AtMostOne symbol (step (handler S) x l) := ha.2.first
      have ha₀ : AtMostOne symbol x := ha.1
      exact ⟨timely_of_atMostOne hs he ha', ih (fun l' hl' => hf l' (List.mem_cons_of_mem _ hl'))
        (disciplined_step _ _ hd l.1 l.2)
        (exact_step hs (hf l List.mem_cons_self) he ha₀ ha') ha.2⟩

/-- At most one call is inside the section of a symbol as long as every acquire of its lock
comes while the calls inside have time left; in a run without faults, only then. -/
theorem mutual_exclusion_timely (S : Setting) (symbol : String) (calls : ι → Call) (w : World)
    (ls : List (ι × Env)) :
    (Along (handler S) (Timely S symbol) (begin calls w) ls →
      Always (handler S) (AtMostOne symbol) (begin calls w) ls) ∧
    ((∀ l ∈ ls, l.2.fault = .none) → Always (handler S) (AtMostOne symbol) (begin calls w) ls →
      Along (handler S) (Timely S symbol) (begin calls w) ls) := by
  have hx := lockKept_begin symbol calls w
  refine ⟨fun ht => ?_, fun hf ha => along_timely hf hx.disciplined (fun i t h => by cases h) ha⟩
  have hstep : ∀ (y : Calls ι) (l : ι × Env), LockKept symbol y → Timely S symbol y l.1 l.2 →
      LockKept symbol (step (handler S) y l) := fun y l hy hok => lockKept_step hy hok
  exact (alwaysRun_of_step hstep hx ht).mono (fun _ h => h.exclusive)

def twoBuys : Fin 2 → Call := fun i =>
  if i = 0 then .buy "BTCUSDT" "regime_trend" "sig-1" 30000 else .buy "BTCUSDT" "regime_trend" "sig-2" 30000

/-- The second call comes while the first one is nine seconds inside, and is refused. -/
def quickFirst : List (Fin 2 × Env) :=
  (0, Env.plain) :: (1, { Env.plain with elapsed := 9, elapsed_nonneg := by decide }) :: List.replicate 5 (0, Env.plain)

theorem mutual_exclusion_timely_quickFirst :
    Always (handler defaults) (AtMostOne "BTCUSDT") (begin twoBuys World.empty) quickFirst ∧
      (runs (handler defaults) (begin twoBuys World.empty) (quickFirst.take 2)).world.now = 9 ∧
      heldSince "BTCUSDT" (runs (handler defaults) (begin twoBuys World.empty) (quickFirst.take 2)) 0 = some 0 :=
  ⟨(mutual_exclusion_timely defaults "BTCUSDT" twoBuys World.empty quickFirst).1 (by decide +kernel),
    by decide +kernel, by decide +kernel⟩

/-- The second call comes eleven seconds after the first one has acquired the lock. -/
def slowFirst : List (Fin 2 × Env) :=
  [(0, Env.plain), (1, { Env.plain with elapsed := 11, elapsed_nonneg := by decide })]

theorem slow_holder_overlaps :
    ¬ Always (handler defaults) (AtMostOne "BTCUSDT") (begin twoBuys World.empty) slowFirst := by
  intro h
  exact absurd (h.last 0 1 (by decide +kernel) (by decide +kernel)) (by decide)

end Autr.Services.SymbolLock
