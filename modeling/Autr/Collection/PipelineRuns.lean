import Autr.Collection.Collector

namespace Autr.Collection.PipelineRuns

open Async Collector Infra.QuantTables Store

/-- How far the main task is with the run of a cycle. -/
inductive Stage
  | ready (cycle : ℕ)
  | opened (cycle runId : ℕ)
  | gathered (cycle runId : ℕ)
  | closed (cycle runId : ℕ)
  | failed (cycle runId : ℕ)
  | dead

def Stage.opens : Stage → Option ℕ
  | .ready cycle => some cycle
  | .closed cycle _ => some (cycle + 1)
  | _ => none

/-- Only the main task opens and closes runs, each after the one before, and closes a run as
a success once it has gathered its threads. -/
def stages (i : Task) : Protocol Op Op.Res String Stage where
  start := .ready 0
  next q _ op r := match op, r, q with
    | .startRun, .ok runId, .ready cycle => .opened cycle runId
    | .startRun, .ok runId, .closed cycle _ => .opened (cycle + 1) runId
    | .gather _, .ok _, .opened cycle runId => .gathered cycle runId
    | .gather _, .error _, .opened cycle runId => .failed cycle runId
    | .endRun .., .ok _, .gathered cycle runId => .closed cycle runId
    | .endRun .., .error _, .gathered cycle runId => .failed cycle runId
    | .endRun .., .ok _, .failed cycle _ => .ready (cycle + 1)
    | .fetchOhlcv .., .error _, .closed cycle runId => .failed cycle runId
    | .queuePush _, .error _, .closed cycle runId => .failed cycle runId
    | .startRun, _, _ | .endRun .., _, _ => .dead
    | _, _, q => q
  allows q op := match op with
    | .startRun => i = .main ∧ ∃ cycle, q.opens = some cycle
    | .gather cycle => i = .main ∧ ∃ runId, q = .opened cycle runId
    | .endRun runId status _ => i = .main ∧ ∃ cycle,
        (q = .gathered cycle runId ∧ status = .success) ∨ (q = .failed cycle runId ∧ status = .error)
    | .queuePush _ | .setHeartbeat => i = .main ∧ ∃ cycle runId, q = .closed cycle runId
    | _ => True
  final _ := True

section Follows

theorem publishTicks_follow (symbols : List String) (n runId : ℕ) :
    (Prog.forEach publishTick symbols).wp (stages .main).spec
      (Prog.out (fun _ q => q = .closed n runId) (fun _ q => q = .failed n runId)) (.closed n runId) := by
  induction symbols with
  | nil => rfl
  | cons symbol symbols ih =>
      change Prog.wp _ (publishTick symbol >>= fun _ => Prog.forEach publishTick symbols) _ _
      rw [Prog.wp_bind, publishTick, latestTick, Prog.wp_bind, Prog.wp_bind, Prog.wp_perform]
      refine ⟨trivial, fun t r => ?_⟩
      rcases r with e | _ | ⟨row, older⟩
      · rfl
      · exact ih
      · refine ⟨⟨rfl, n, runId, rfl⟩, fun t r => ?_⟩
        cases r with
        | error e => rfl
        | ok _ => exact ih

theorem cycleBody_follows (symbols : List String) (n runId : ℕ) :
    (cycleBody symbols n runId).wp (stages .main).spec
      (Prog.out (fun _ q => q = .closed n runId) (fun _ q => q = .failed n runId)) (.opened n runId) := by
  rw [cycleBody, Prog.wp_bind, Prog.wp_perform]
  refine ⟨⟨rfl, runId, rfl⟩, fun t r => ?_⟩
  cases r with
  | error e => rfl
  | ok _ =>
      rw [Prog.out_ok, Prog.wp_bind, Prog.wp_perform]
      refine ⟨⟨rfl, n, .inl ⟨rfl, rfl⟩⟩, fun t r => ?_⟩
      cases r with
      | error e => rfl
      | ok _ =>
          rw [Prog.out_ok, Prog.wp_bind]
          refine Prog.wp_mono (stages .main).spec_mono _ (fun r q hq => ?_) _ (publishTicks_follow symbols n runId)
          cases r with
          | error e => exact hq
          | ok _ =>
              rw [Prog.out_ok] at hq ⊢
              subst hq
              rw [recordHeartbeat, swallow, Prog.wp_attempt, Prog.wp_perform]
              exact ⟨⟨rfl, n, runId, rfl⟩, fun t r => by cases r <;> rfl⟩

theorem cycle_follows (symbols : List String) (n : ℕ) {q : Stage} (hq : q.opens = some n) :
    (cycle symbols n).wp (stages .main).spec (Prog.out (fun _ q => q.opens = some (n + 1)) (fun _ _ => True)) q := by
  rw [cycle, Prog.wp_bind, Prog.wp_perform]
  refine ⟨⟨rfl, n, hq⟩, fun t r => ?_⟩
  cases r with
  | error e => trivial
  | ok runId =>
      have hopened : (stages .main).next q t .startRun (.ok runId) = .opened n runId := by
        cases q with
        | ready cycle => cases hq; rfl
        | closed cycle _ => cases hq; rfl
        | _ => cases hq
      rw [Prog.out_ok, hopened, Prog.wp_attempt]
      refine Prog.wp_mono (stages .main).spec_mono _ (fun r q hq => ?_) _ (cycleBody_follows symbols n runId)
      cases r with
      | ok _ =>
          rw [Prog.out_ok] at hq ⊢
          subst hq
          rfl
      | error e =>
          change q = .failed n runId at hq
          subst hq
          refine ⟨⟨rfl, n, .inr ⟨rfl, rfl⟩⟩, fun t r => ?_⟩
          cases r with
          | error e => trivial
          | ok _ => rfl

theorem cycles_follow (symbols : List String) (first count : ℕ) {q : Stage} (hq : q.opens = some first) :
    (stages .main).Follows q (Prog.forEach (cycle symbols) (List.range' first count)) := by
  induction count generalizing first q with
  | zero => trivial
  | succ count ih =>
      rw [List.range'_succ]
      change Prog.wp _ (cycle symbols first >>= fun _ => Prog.forEach (cycle symbols) _) _ _
      rw [Prog.wp_bind]
      refine Prog.wp_mono (stages .main).spec_mono _ (fun r q hq => ?_) _ (cycle_follows symbols first hq)
      cases r with
      | error e => trivial
      | ok _ => exact ih (first + 1) hq

theorem task_follows (S : Config) (i : Task) : (stages i).Follows (.ready 0) (S.task i) := by
  cases i with
  | main =>
      have h := cycles_follow S.symbols 0 S.cycles (q := .ready 0) rfl
      rwa [← List.range_eq_range'] at h
  | thread n index =>
      have huses : (S.task (.thread n index)).Uses OfThread := by
        rw [Config.task]
        cases S.symbols[index]? with
        | none => exact trivial
        | some symbol => exact collectSymbol_ofThread S.timeframes symbol
      refine Prog.wp_of_uses (stages _).spec_mono (fun op q hop _ => ⟨?_, fun _ _ => trivial⟩) _ huses _ trivial
      cases op with
      | startRun | gather _ | endRun _ _ _ | queuePush _ | setHeartbeat => exact hop.elim
      | _ => trivial

end Follows

/-- The cycle of the main task with its run, while there is one. -/
def Stage.run : Stage → Option (ℕ × ℕ)
  | .opened cycle runId | .gathered cycle runId | .closed cycle runId | .failed cycle runId => some (cycle, runId)
  | _ => none

/-- The rows of `pipeline_runs` beside the stage of the main task: `first` is the last run
before this process, and a cycle can be one whose threads have `returned`. -/
structure Books (first : ℕ) (returned : ℕ → Prop) (q : Stage) (d : QuantDb) : Prop where
  opens : ∀ cycle, q.opens = some cycle → d.lastRunId = first + cycle
  run : ∀ cycle runId, q.run = some (cycle, runId) →
    runId = first + cycle + 1 ∧ d.lastRunId = runId ∧ ∃ r ∈ d.pipelineRuns, r.runId = runId
  known : ∀ r ∈ d.pipelineRuns, r.runId ≤ d.lastRunId
  running : ∀ r ∈ d.pipelineRuns, first < r.runId → r.status = .running → r.runId = d.lastRunId
  idle : ∀ cycle, q.opens = some cycle → ∀ r ∈ d.pipelineRuns, first < r.runId → r.status ≠ .running
  success : ∀ r ∈ d.pipelineRuns, first < r.runId → r.status = .success → returned (r.runId - first - 1)
  gathered : ∀ cycle runId, q = .gathered cycle runId → returned cycle
  closed : ∀ cycle runId, q = .closed cycle runId → ∀ r ∈ d.pipelineRuns, r.runId = runId → r.status = .success

namespace Books

variable {first : ℕ} {returned : ℕ → Prop} {q : Stage} {d : QuantDb} {cycle runId : ℕ}

theorem mono {returned' : ℕ → Prop} (h : Books first returned q d) (hreturned : ∀ n, returned n → returned' n) :
    Books first returned' q d :=
  { h with
    success := fun r hr hown hstatus => hreturned _ (h.success r hr hown hstatus)
    gathered := fun cycle runId hq => hreturned _ (h.gathered cycle runId hq) }

/-- A stage that asks for no more of the rows. -/
theorem lapse (h : Books first returned q d) {q' : Stage} (hopens : q'.opens = none)
    (hrun : q'.run = none ∨ q'.run = q.run) (hgathered : ∀ cycle runId, q' = .gathered cycle runId → returned cycle) :
    Books first returned q' d where
  opens cycle hq := nomatch hopens.symm.trans hq
  run cycle runId hq := by
    rcases hrun with hrun | hrun
    · cases hrun.symm.trans hq
    · exact h.run cycle runId (hrun.symm.trans hq)
  known := h.known
  running := h.running
  idle cycle hq := nomatch hopens.symm.trans hq
  success := h.success
  gathered := hgathered
  closed cycle runId hq := by
    subst hq
    cases hopens

theorem dead (h : Books first returned q d) : Books first returned .dead d :=
  h.lapse rfl (.inl rfl) (by rintro _ _ ⟨⟩)

theorem failed (h : Books first returned q d) (hrun : q.run = some (cycle, runId)) :
    Books first returned (.failed cycle runId) d :=
  h.lapse rfl (.inr hrun.symm) (by rintro _ _ ⟨⟩)

theorem started (h : Books first returned q d) (hq : q.opens = some cycle) :
    Books first returned (.opened cycle (startRun d).1) (startRun d).2 := by
  have hlast := h.opens cycle hq
  have hcases : ∀ r ∈ (startRun d).2.pipelineRuns, r ∈ d.pipelineRuns ∨ r = ⟨d.lastRunId + 1, .running, "started"⟩ := by
    intro r hr
    simpa [startRun] using hr
  refine ⟨fun _ h => (nomatch h), fun _ _ h => ?_, fun r hr => ?_, fun r hr hown hstatus => ?_, fun _ h => (nomatch h),
    fun r hr hown hstatus => ?_, fun _ _ h => (nomatch h), fun _ _ h => (nomatch h)⟩
  · cases h
    exact ⟨by rw [startRun, hlast], rfl, ⟨d.lastRunId + 1, .running, "started"⟩, by simp [startRun], rfl⟩
  · rcases hcases r hr with hr | rfl
    · exact (h.known r hr).trans (Nat.le_succ _)
    · exact le_rfl
  · rcases hcases r hr with hr | rfl
    · exact absurd hstatus (h.idle cycle hq r hr hown)
    · rfl
  · rcases hcases r hr with hr | rfl
    · exact h.success r hr hown hstatus
    · cases hstatus

theorem mem_endRun {status : RunStatus} {message : String} {r : PipelineRun}
    (hr : r ∈ (endRun runId status message d).pipelineRuns) :
    (r.runId = runId ∧ r.status = status ∧ ∃ r₀ ∈ d.pipelineRuns, r₀.runId = runId) ∨
      (r.runId ≠ runId ∧ r ∈ d.pipelineRuns) := by
  obtain ⟨r₀, hr₀, rfl⟩ := List.mem_map.1 hr
  split
  · next h => exact .inl ⟨h, rfl, r₀, hr₀, h⟩
  · next h => exact .inr ⟨h, hr₀⟩

/-- The run of the cycle is closed, as an error or as a success once the threads are done. -/
theorem ended (h : Books first returned q d) (hq : q.run = some (cycle, runId)) {status : RunStatus} (message : String)
    (hstatus : status = .error ∨ status = .success ∧ returned cycle) {q' : Stage}
    (hq' : q' = .ready (cycle + 1) ∨ q' = .closed cycle runId ∧ status = .success) :
    Books first returned q' (endRun runId status message d) := by
  obtain ⟨hcycle, hlast, r₁, hr₁, hrun⟩ := h.run cycle runId hq
  have hne : status ≠ .running := by
    rintro rfl
    rcases hstatus with hstatus | ⟨hstatus, -⟩ <;> cases hstatus
  have hidle : ∀ r ∈ (endRun runId status message d).pipelineRuns, first < r.runId → r.status ≠ .running := by
    intro r hr hown hrunning
    rcases mem_endRun hr with ⟨-, hs, -⟩ | ⟨hother, hr⟩
    · exact hne (hs.symm.trans hrunning)
    · exact hother ((h.running r hr hown hrunning).trans hlast)
  have hlastRun : (endRun runId status message d).lastRunId = first + (cycle + 1) := hlast.trans hcycle
  refine ⟨fun n hn => ?_, fun n id hn => ?_, fun r hr => ?_, fun r hr hown hs => absurd hs (hidle r hr hown),
    fun _ _ => hidle, fun r hr hown hs => ?_, fun n id hn => ?_, fun n id hn r hr hid => ?_⟩
  · rcases hq' with rfl | ⟨rfl, -⟩ <;> cases hn <;> exact hlastRun
  · rcases hq' with rfl | ⟨rfl, -⟩
    · cases hn
    · cases hn
      exact ⟨hcycle, hlast, ⟨r₁.runId, status, message⟩, List.mem_map.2 ⟨r₁, hr₁, if_pos hrun⟩, hrun⟩
  · rcases mem_endRun hr with ⟨hid, -⟩ | ⟨-, hr⟩
    · exact (hid.trans hlast.symm).le
    · exact h.known r hr
  · rcases mem_endRun hr with ⟨hid, hs', -⟩ | ⟨-, hr⟩
    · rcases hstatus with rfl | ⟨-, hreturned⟩
      · cases hs'.symm.trans hs
      · rwa [show r.runId - first - 1 = cycle by omega]
    · exact h.success r hr hown hs
  · rcases hq' with rfl | ⟨rfl, -⟩ <;> cases hn
  · rcases hq' with rfl | ⟨rfl, hsuccess⟩
    · cases hn
    · cases hn
      rcases mem_endRun hr with ⟨-, hs, -⟩ | ⟨hother, -⟩
      · exact hs.trans hsuccess
      · exact absurd hid hother

theorem congr {d' : QuantDb} (h : Books first returned q d) (hruns : d'.pipelineRuns = d.pipelineRuns)
    (hlast : d'.lastRunId = d.lastRunId) : Books first returned q d' := by
  obtain ⟨hopens, hrun, hknown, hrunning, hidle, hsuccess, hgathered, hclosed⟩ := h
  rw [← hruns, ← hlast] at hknown hrunning
  rw [← hlast] at hopens
  rw [← hruns] at hidle hsuccess hclosed
  refine ⟨hopens, fun cycle runId hq => ?_, hknown, hrunning, hidle, hsuccess, hgathered, hclosed⟩
  rw [hruns, hlast]
  exact hrun cycle runId hq

end Books

/-- All threads of a cycle have come to their end. -/
def Returned (S : Config) (x : Pool) (cycle : ℕ) : Prop :=
  ∀ index < S.symbols.length, x.task (.thread cycle index) = .pure ()

/-- `asyncio.gather` answers once all threads of the cycle are done, and raises what one of
them has raised. -/
def Gathers (S : Config) (x : Pool) (i : Task) (c : Env) : Prop :=
  match (x.task i).next, c.gathered with
  | some (.gather cycle), .ok _ => Returned S x cycle
  | some (.gather cycle), .error e => ∃ index < S.symbols.length, x.task (.thread cycle index) = .raise e
  | _, _ => True

variable {S : Config} {db : QuantDb} {x : Pool}

theorem Returned.step {n : ℕ} (h : Returned S x n) (i : Task) (c : Env) :
    Returned S (step (handler S.backend) x (i, c)) n :=
  fun index hindex => step_task_of_pure _ (h index hindex) i c

structure Accounted (S : Config) (db : QuantDb) (x : Pool) : Prop where
  disciplined : Disciplined stages x
  books : Books db.lastRunId (Returned S x) (phase (stages .main) .main x.trace) x.world.db

/-- Calls that leave the runs alone. -/
def Quiet : Op → Prop
  | .startRun | .gather _ | .endRun .. => False
  | _ => True

theorem books_quiet {backend : Backend} {first : ℕ} {returned : ℕ → Prop} {q : Stage} {w w' : World} {op : Op}
    (h : Books first returned q w.db) (heffect : Effect backend op w w') (hquiet : Quiet op) :
    Books first returned q w'.db := by
  cases heffect with
  | inserted rows =>
      obtain ⟨hrows, hnext⟩ := insertMany_pipelineRuns backend rows w.db
      exact h.congr hrows hnext
  | started hop | ended _ _ _ hop =>
      subst hop
      exact hquiet.elim
  | same | pushed _ _ | beat _ => exact h

theorem next_quiet {q : Stage} {op : Op} (hquiet : Quiet op) (t : ℚ) (r : Except String op.Res) :
    (stages .main).next q t op r = q ∨
      ∃ cycle runId, q = .closed cycle runId ∧ (stages .main).next q t op r = .failed cycle runId := by
  cases op with
  | startRun | gather _ | endRun _ _ _ => exact hquiet.elim
  | fetchOhlcv _ _ _ _ | queuePush _ =>
      cases r with
      | ok _ => exact .inl (by cases q <;> rfl)
      | error e =>
          cases q with
          | closed cycle runId => exact .inr ⟨cycle, runId, rfl, rfl⟩
          | _ => exact .inl rfl
  | _ => exact .inl (by cases r <;> cases q <;> rfl)

theorem books_main_quiet {backend : Backend} {first : ℕ} {returned : ℕ → Prop} {q : Stage} {w : World} {op : Op}
    {c : Env}
    (h : Books first returned q w.db) (hquiet : Quiet op) (t : ℚ) :
    Books first returned ((stages .main).next q t op (exec backend op c w).1) (exec backend op c w).2.db := by
  have hkept := books_quiet h (exec_effect backend op c w) hquiet
  rcases next_quiet (q := q) hquiet t (exec backend op c w).1 with hnext | ⟨cycle, runId, rfl, hnext⟩
  · rw [hnext]
    exact hkept
  · rw [hnext]
    exact hkept.failed rfl

/-- What a call of the main task makes of the rows. -/
theorem books_main {backend : Backend} {first : ℕ} {returned : ℕ → Prop} {q : Stage} {w : World} {op : Op} {c : Env}
    (h : Books first returned q w.db) (hallows : (stages .main).allows q op)
    (hgather : ∀ cycle, op = .gather cycle → ∀ u, c.gathered = .ok u → returned cycle) (t : ℚ) :
    Books first returned ((stages .main).next q t op (exec backend op c w).1) (exec backend op c w).2.db := by
  cases op with
  | startRun =>
      obtain ⟨-, cycle, hq⟩ := hallows
      have hstarted := h.started hq
      have hopened : (stages .main).next q t .startRun (.ok (startRun w.db).1) = .opened cycle (startRun w.db).1 := by
        cases q with
        | ready _ | closed _ _ => cases hq; rfl
        | _ => cases hq
      have hdead : ∀ e, (stages .main).next q t .startRun (.error e) = .dead := fun e => by cases q <;> rfl
      rcases hf : c.fault with _ | e | e <;> simp only [exec, hf, Fault.apply]
      · rw [hopened]
        exact hstarted
      · rw [hdead]
        exact h.dead
      · rw [hdead]
        exact hstarted.dead
  | gather cycle =>
      obtain ⟨-, runId, rfl⟩ := hallows
      cases hr : c.gathered with
      | error e =>
          simp only [exec, hr]
          exact h.failed rfl
      | ok u =>
          simp only [exec, hr]
          refine h.lapse rfl (.inr rfl) (fun n id hn => ?_)
          cases hn
          exact hgather cycle rfl u hr
  | endRun runId status message =>
      obtain ⟨-, cycle, ⟨rfl, rfl⟩ | ⟨rfl, rfl⟩⟩ := hallows
      · have hended := h.ended rfl message (.inr ⟨rfl, h.gathered cycle runId rfl⟩) (.inr ⟨rfl, rfl⟩)
        rcases hf : c.fault with _ | e | e <;> simp only [exec, hf, Fault.apply]
        · exact hended
        · exact h.failed rfl
        · exact hended.failed rfl
      · have hended := h.ended rfl message (.inl rfl) (.inl rfl)
        rcases hf : c.fault with _ | e | e <;> simp only [exec, hf, Fault.apply]
        · exact hended
        · exact h.dead
        · exact hended.dead
  | _ =>
      refine books_main_quiet h ?_ t
      trivial

theorem accounted_step (hx : Accounted S db x) {i : Task} {c : Env} (hgathers : Gathers S x i c) :
    Accounted S db (step (handler S.backend) x (i, c)) := by
  have hd := disciplined_step stages (handler S.backend) hx.disciplined i c
  have hbooks := hx.books.mono (fun _ (h : Returned S x _) => h.step i c)
  refine ⟨hd, ?_⟩
  rcases step_cases (handler S.backend) x i c with ⟨_, hs⟩ | ⟨op, k, hp, hs⟩
  · rw [hs] at hbooks ⊢
    exact hbooks
  have hallows := hx.disciplined.allows hp
  rw [hs] at hbooks ⊢
  cases i with
  | main =>
      rw [phase_answered]
      refine books_main hbooks hallows (fun cycle hop u hu => ?_) _
      rw [← hs]
      subst hop
      rw [Gathers, hp, hu] at hgathers
      exact Returned.step hgathers .main c
  | thread n index =>
      have hne : Task.main ≠ .thread n index := nofun
      rw [phase_answered_ne _ _ hne]
      refine books_quiet hbooks (exec_effect S.backend op c x.world) ?_
      cases op with
      | startRun | gather _ | endRun _ _ _ => exact nomatch hallows.1
      | _ => trivial

/-- In every state but the last run of the process is closed, a run is a success only if all
threads of its cycle have returned, and the heartbeat is sent while the last run is one. -/
structure Sound (S : Config) (db : QuantDb) (x : Pool) : Prop where
  running : ∀ r ∈ x.world.db.pipelineRuns, db.lastRunId < r.runId → r.status = .running →
    r.runId = x.world.db.lastRunId
  success : ∀ r ∈ x.world.db.pipelineRuns, db.lastRunId < r.runId → r.status = .success →
    Returned S x (r.runId - db.lastRunId - 1)
  heartbeat : (x.task .main).next = some .setHeartbeat →
    ∃ r ∈ x.world.db.pipelineRuns, r.runId = x.world.db.lastRunId ∧ db.lastRunId < r.runId ∧ r.status = .success

theorem Accounted.sound (hx : Accounted S db x) : Sound S db x where
  running := hx.books.running
  success := hx.books.success
  heartbeat hnext := by
    cases hp : x.task .main with
    | pure _ | raise _ =>
        rw [hp] at hnext
        cases hnext
    | call op k =>
        rw [hp] at hnext
        cases Option.some.inj hnext
        obtain ⟨-, cycle, runId, hq⟩ := hx.disciplined.allows hp
        obtain ⟨hrun, hlast, r, hr, hid⟩ := hx.books.run cycle runId (by rw [hq]; rfl)
        exact ⟨r, hr, hid.trans hlast.symm, by omega, hx.books.closed cycle runId hq r hr hid⟩

/-- Whatever fails, so long as `gather` answers only for threads that are done. -/
theorem pipelineRuns_sound (S : Config) (db : QuantDb) (hids : ∀ r ∈ db.pipelineRuns, r.runId ≤ db.lastRunId)
    (ls : List (Task × Env)) (hgathers : Along (handler S.backend) (Gathers S) (S.begin db) ls) :
    Sound S db (S.runs db ls) := by
  have hbegin : Accounted S db (S.begin db) := by
    refine ⟨disciplined_start (fun i => task_follows S i) _, ?_⟩
    refine ⟨fun _ h => ?_, fun _ _ h => (nomatch h), hids, fun r hr hown => absurd (hids r hr) (not_le.2 hown),
      fun _ _ r hr hown => absurd (hids r hr) (not_le.2 hown), fun r hr hown => absurd (hids r hr) (not_le.2 hown),
      fun _ _ h => (nomatch h), fun _ _ h => (nomatch h)⟩
    cases h
    rfl
  exact (alwaysRun_of_step (fun x (l : Task × Env) (h : Accounted S db x) hl => accounted_step h hl) hbegin
    hgathers).last.sound

/-- A cycle over one symbol: its thread collects what there is, and the main task gathers it. -/
def bitcoin : Config where
  py := ⟨String.toInt?, fun text => text.toInt?.map Int.cast, fun _ => "", fun x => x - 1⟩
  backend := .sqlite
  symbols := ["BTCUSDT"]
  timeframes := []
  cycles := 1

def fresh : QuantDb :=
  ⟨Table.empty, Table.empty, Table.empty, Table.empty, Table.empty, Table.empty, Table.empty, [], 0⟩

def answered : Env := ⟨.none, 0, ⟨none, none⟩, ⟨none, none⟩, ⟨none, none⟩, .ok ()⟩

def oneCycle : List (Task × Env) :=
  List.replicate 13 (.thread 0 0, answered) ++ List.replicate 4 (.main, answered)

theorem pipelineRuns_sound_oneCycle : Sound bitcoin fresh (bitcoin.runs fresh oneCycle) ∧
    ((bitcoin.runs fresh oneCycle).task .main).next = some .setHeartbeat := by
  refine ⟨pipelineRuns_sound bitcoin fresh (fun r hr => nomatch hr) oneCycle ?_, rfl⟩
  refine ⟨trivial, trivial, trivial, trivial, trivial, trivial, trivial, trivial, trivial, trivial, trivial, trivial,
    trivial, trivial, fun index hindex => ?_, trivial, trivial, trivial⟩
  rw [Nat.lt_one_iff.1 hindex]
  rfl

end Autr.Collection.PipelineRuns
