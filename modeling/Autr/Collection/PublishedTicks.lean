import Autr.Collection.Collector

namespace Autr.Collection.PublishedTicks

open Async Collector Infra.QuantStore Infra.QuantTables Store

/-- What the last call of a task has brought it. -/
inductive Held
  | nothing
  | klines (symbol timeframe : String) (resp : Response (List (List String)))
  | fetched (symbol marketType timeframe : String) (rows : List (ℤ × Ohlcv))

/-- A batch for a table that other tables are made from is what the call right before it
has brought, and only the main task publishes, the newest row it has fetched. -/
def hands (py : Conversions) (i : Task) : Protocol Op Op.Res String Held where
  start := .nothing
  next _ _ op r := match op, r with
    | .getKline symbol timeframe, .ok resp => .klines symbol timeframe resp
    | .fetchOhlcv symbol marketType timeframe _, .ok rows => .fetched symbol marketType timeframe rows
    | _, _ => .nothing
  allows q op := match op with
    | .insertMany (.rawOhlcv rows) =>
        ∃ symbol timeframe resp, q = .klines symbol timeframe resp ∧ candles py symbol timeframe resp = some rows
    | .insertMany (.featureBar bars) =>
        ∃ symbol timeframe rows, q = .fetched symbol "spot" timeframe rows ∧ bars = featureBars py symbol timeframe rows
    | .queuePush tick =>
        i = .main ∧ ∃ row older, q = .fetched tick.symbol "spot" "1" (row :: older) ∧ (tick.ts, tick.values) = row
    | _ => True
  final _ := True

section Follows

variable {py : Conversions} {i : Task}

/-- Calls that ask for nothing to be handed over. -/
def Free (op : Op) : Prop :=
  match op with
  | .insertMany (.rawOhlcv _) | .insertMany (.featureBar _) | .queuePush _ => False
  | _ => True

theorem follows_of_free {α : Type} {p : Work α} (hp : p.Uses Free) (q : Held) : (hands py i).Follows q p := by
  refine Prog.wp_of_uses (hands py i).spec_mono (fun op q hop _ => ⟨?_, fun _ _ => trivial⟩) p hp q trivial
  cases op with
  | insertMany rows => cases rows <;> first | exact trivial | exact hop.elim
  | queuePush tick => exact hop.elim
  | _ => exact trivial

theorem free_of_collects (op : Op) (h : Collects op) : Free op := by
  cases op with
  | insertMany rows => cases rows <;> first | exact trivial | exact h
  | queuePush tick => exact h
  | _ => exact trivial

theorem follows_of_collects {p : Work Unit} (hp : p.Uses Collects) (q : Held) : (hands py i).Follows q p :=
  follows_of_free (hp.mono free_of_collects) q

theorem follows_await (op : Op) (h : Free op) (q : Held) : (hands py i).Follows q (await op) :=
  follows_of_free (Prog.uses_perform h) q

theorem collectOhlcv_follows (symbol timeframe : String) (q : Held) :
    (hands py i).Follows q (collectOhlcv py symbol timeframe) := by
  rw [Protocol.Follows, collectOhlcv, swallow, Prog.wp_attempt, Prog.wp_bind, Prog.wp_perform]
  refine ⟨trivial, fun t r => ?_⟩
  cases r with
  | error e => exact trivial
  | ok resp =>
      rw [Prog.out_ok]
      cases hrows : candles py symbol timeframe resp with
      | none => exact trivial
      | some rows =>
          rw [Prog.wp_perform]
          refine ⟨⟨symbol, timeframe, resp, rfl, hrows⟩, fun _ r => ?_⟩
          cases r <;> exact trivial

theorem computeFeatures_follows (symbol timeframe : String) (q : Held) :
    (hands py i).Follows q (computeFeatures py symbol timeframe) := by
  rw [Protocol.Follows, computeFeatures, Prog.wp_bind, Prog.wp_perform]
  refine ⟨trivial, fun t r => ?_⟩
  cases r with
  | error e => exact trivial
  | ok rows =>
      rw [Prog.out_ok, Prog.wp_perform]
      exact ⟨⟨symbol, timeframe, rows, rfl, rfl⟩, fun _ _ => trivial⟩

theorem collectSymbol_follows (timeframes : List String) (symbol : String) (q : Held) :
    (hands py i).Follows q (collectSymbol py timeframes symbol) := by
  have hmono := (hands py i).spec_mono
  refine Prog.wp_bind_of hmono (follows_of_collects (collectTicker_collects symbol) q) (fun _ q _ => ?_)
  refine Prog.wp_bind_of hmono (follows_of_collects (collectOrderbookTop_collects symbol) q) (fun _ q _ => ?_)
  refine Prog.wp_bind_of hmono (follows_of_collects (collectPublicTrades_collects symbol) q) (fun _ q _ => ?_)
  refine Prog.wp_bind_of hmono (follows_of_collects (collectDerivativesMetrics_collects symbol) q) (fun _ q _ => ?_)
  refine Prog.wp_forEach_of hmono (fun timeframe q _ => ?_) timeframes trivial
  exact Prog.wp_bind_of hmono (collectOhlcv_follows symbol timeframe q)
    (fun _ q _ => computeFeatures_follows symbol timeframe q)

theorem publishTick_follows (symbol : String) (q : Held) : (hands py .main).Follows q (publishTick symbol) := by
  rw [Protocol.Follows, publishTick, latestTick, Prog.wp_bind, Prog.wp_bind, Prog.wp_perform]
  refine ⟨trivial, fun t r => ?_⟩
  rcases r with e | _ | ⟨row, older⟩
  · exact trivial
  · exact trivial
  · exact ⟨⟨rfl, row, older, rfl, rfl⟩, fun _ r => by cases r <;> exact trivial⟩

theorem recordHeartbeat_follows (q : Held) : (hands py i).Follows q recordHeartbeat :=
  Prog.wp_attempt_of (hands py i).spec_mono (follows_await .setHeartbeat trivial q) (fun _ _ _ => trivial)

theorem cycle_follows (symbols : List String) (n : ℕ) (q : Held) : (hands py .main).Follows q (cycle symbols n) := by
  have hmono := (hands py .main).spec_mono
  refine Prog.wp_bind_of hmono (follows_await .startRun trivial q) (fun runId q _ => ?_)
  refine Prog.wp_attempt_of hmono ?_ (fun exc q _ => follows_await (.endRun runId .error exc) trivial q)
  refine Prog.wp_bind_of hmono (follows_await (.gather n) trivial q) (fun _ q _ => ?_)
  refine Prog.wp_bind_of hmono
    (follows_await (.endRun runId .success "cycle completed") trivial q) (fun _ q _ => ?_)
  refine Prog.wp_bind_of hmono ?_ (fun _ q _ => recordHeartbeat_follows q)
  exact Prog.wp_forEach_of hmono (fun symbol q _ => publishTick_follows symbol q) symbols trivial

theorem task_follows (S : Config) (i : Task) : (hands S.py i).Follows .nothing (S.task i) := by
  cases i with
  | main =>
      exact Prog.wp_forEach_of (hands S.py .main).spec_mono (fun n q _ => cycle_follows S.symbols n q)
        (List.range S.cycles) trivial
  | thread n index =>
      rw [Config.task]
      cases S.symbols[index]? with
      | none => exact trivial
      | some symbol => exact collectSymbol_follows S.timeframes symbol .nothing

end Follows

section Calls

variable {backend : Backend}

theorem mem_fetchOhlcv {T : RawOhlcv} {symbol marketType timeframe : String} {limit : ℕ} {row : ℤ × Ohlcv}
    (h : row ∈ fetchOhlcv T symbol marketType timeframe limit) :
    ∃ r ∈ T.rows, r.key = ⟨symbol, marketType, timeframe, row.1⟩ ∧ r.values = row.2 := by
  obtain ⟨r, hr, rfl⟩ := List.mem_map.1 h
  obtain ⟨hr, hp⟩ := List.mem_filter.1 (mem_newest _ hr)
  obtain ⟨hs, hm, ht⟩ := of_decide_eq_true hp
  exact ⟨r, hr, by rw [← hs, ← hm, ← ht], rfl⟩

/-- The first row that is fetched is the newest of its series. -/
theorem le_of_fetchOhlcv {T : RawOhlcv} {symbol marketType timeframe : String} {limit : ℕ} {row : ℤ × Ohlcv}
    {older : List (ℤ × Ohlcv)} (h : fetchOhlcv T symbol marketType timeframe limit = row :: older) {r : Candle}
    (hr : r ∈ T.rows) {ts : ℤ} (hkey : r.key = ⟨symbol, marketType, timeframe, ts⟩) : ts ≤ row.1 := by
  obtain ⟨r', older', hnewest, rfl, -⟩ := List.map_eq_cons_iff.1 h
  have hle := rank_le_of_newest (fun r : Candle => r.key.ts) hnewest
    (List.mem_filter.2 ⟨hr, by simp [hkey]⟩)
  rwa [hkey] at hle

theorem held_fetched {py : Conversions} {i : Task} {q : Held} {t : ℚ} {op : Op} {c : Env} {w : World}
    {symbol marketType timeframe : String} {rows : List (ℤ × Ohlcv)}
    (h : (hands py i).next q t op (exec backend op c w).1 = .fetched symbol marketType timeframe rows) :
    ∃ limit, op = .fetchOhlcv symbol marketType timeframe limit ∧
      rows = fetchOhlcv w.db.rawOhlcv symbol marketType timeframe limit := by
  cases op with
  | fetchOhlcv symbol' marketType' timeframe' limit =>
      cases hr : (exec backend (.fetchOhlcv symbol' marketType' timeframe' limit) c w).1 with
      | error e =>
          rw [hr] at h
          cases h
      | ok rows' =>
          rw [hr] at h
          cases h
          exact ⟨limit, rfl, (fault_ok hr).2⟩
  | getKline symbol' interval =>
      cases hr : (exec backend (.getKline symbol' interval) c w).1 <;> rw [hr] at h <;> cases h
  | _ => cases h

/-- The call has answered klines with the candle among them. -/
def Brings (py : Conversions) (r : Candle) (op : Op) (result : Except String op.Res) : Prop :=
  match op, result with
  | .getKline symbol timeframe, .ok resp => ∃ rows, candles py symbol timeframe resp = some rows ∧ r ∈ rows
  | _, _ => False

theorem held_klines {py : Conversions} {i : Task} {q : Held} {t : ℚ} {op : Op} {result : Except String op.Res}
    {symbol timeframe : String} {resp : Response (List (List String))}
    (h : (hands py i).next q t op result = .klines symbol timeframe resp) {rows : List Candle}
    (hrows : candles py symbol timeframe resp = some rows) {r : Candle} (hr : r ∈ rows) : Brings py r op result := by
  cases op with
  | getKline symbol' interval =>
      cases result with
      | error e => cases h
      | ok resp' =>
          cases h
          exact ⟨rows, hrows, hr⟩
  | fetchOhlcv symbol' marketType' timeframe' limit => cases result <;> cases h
  | _ => cases h

end Calls

def Collected (py : Conversions) (tr : List (Event Task Op Op.Res String Unit)) (r : Candle) : Prop :=
  ∃ e ∈ tr, Brings py r e.op e.result

theorem Collected.cons {py : Conversions} {tr : List (Event Task Op Op.Res String Unit)} {r : Candle}
    (h : Collected py tr r) (e : Event Task Op Op.Res String Unit) : Collected py (e :: tr) r := by
  obtain ⟨e', he, hr⟩ := h
  exact ⟨e', List.mem_cons_of_mem e he, hr⟩

section Rows

variable (S : Config) (db : QuantDb)

def Known (x : Pool) (r : Candle) : Prop := r ∈ db.rawOhlcv.rows ∨ Collected S.py x.trace r

/-- The store has a candle under the key, and the values are ones that were collected for it. -/
structure Seen (x : Pool) (key : CandleKey) (values : Ohlcv) : Prop where
  stored : ∃ r ∈ x.world.db.rawOhlcv.rows, r.key = key
  known : ∃ r, Known S db x r ∧ r.key = key ∧ r.values = values

/-- Every stored candle comes from the exchange or was there before. -/
structure Traced (x : Pool) : Prop where
  disciplined : Disciplined (hands S.py) x
  stored : ∀ r ∈ x.world.db.rawOhlcv.rows, Known S db x r
  held : ∀ i symbol timeframe resp rows, phase (hands S.py i) i x.trace = .klines symbol timeframe resp →
    candles S.py symbol timeframe resp = some rows → ∀ r ∈ rows, Collected S.py x.trace r

/-- Every row that a task holds and every published tick has a property of keys and values. -/
structure Carried (P : CandleKey → Ohlcv → Prop) (x : Pool) : Prop where
  fetched : ∀ i symbol marketType timeframe rows,
    phase (hands S.py i) i x.trace = .fetched symbol marketType timeframe rows →
    ∀ row ∈ rows, P ⟨symbol, marketType, timeframe, row.1⟩ row.2
  published : ∀ tick ∈ x.world.published, P ⟨tick.symbol, "spot", "1", tick.ts⟩ tick.values

variable {S db} {x : Pool}

theorem traced_begin : Traced S db (S.begin db) where
  disciplined := disciplined_start (fun i => task_follows S i) _
  stored _ hr := .inl hr
  held _ _ _ _ _ h := nomatch h

theorem traced_step (hx : Traced S db x) (i : Task) (c : Env) :
    Traced S db (step (handler S.backend) x (i, c)) := by
  have hd := disciplined_step (hands S.py) (handler S.backend) hx.disciplined i c
  rcases step_cases (handler S.backend) x i c with ⟨_, hs⟩ | ⟨op, k, hp, hs⟩
  · rw [hs]
    exact hx
  rw [hs] at hd ⊢
  have hallows := hx.disciplined.allows hp
  refine ⟨hd, fun r hr => ?_, fun j symbol timeframe resp rows hheld hrows r hr => ?_⟩
  · rcases (exec_effect S.backend op c x.world).batch.origin r hr with hr | hr
    · exact (hx.stored r hr).imp_right (fun h => h.cons _)
    · cases op with
      | insertMany batch =>
          cases batch with
          | rawOhlcv rows =>
              obtain ⟨symbol, timeframe, resp, hheld, hrows⟩ := hallows
              exact .inr ((hx.held i symbol timeframe resp rows hheld hrows r hr).cons _)
          | _ => cases hr
      | _ => cases hr
  · by_cases hj : j = i
    · subst hj
      rw [phase_answered] at hheld
      exact ⟨_, List.mem_cons_self, held_klines hheld hrows hr⟩
    · rw [phase_answered_ne _ _ hj] at hheld
      exact (hx.held j symbol timeframe resp rows hheld hrows r hr).cons _

theorem carried_begin {P : CandleKey → Ohlcv → Prop} : Carried S P (S.begin db) where
  fetched _ _ _ _ _ h := nomatch h
  published _ h := nomatch h

/-- What holds of the stored candles, and is not lost, holds of what is read and published. -/
theorem carried_step {P P' : CandleKey → Ohlcv → Prop} (hd : Disciplined (hands S.py) x) (hx : Carried S P x)
    (hread : ∀ r ∈ x.world.db.rawOhlcv.rows, P' r.key r.values) (hkeep : ∀ key values, P key values → P' key values)
    (i : Task) (c : Env) : Carried S P' (step (handler S.backend) x (i, c)) := by
  rcases step_cases (handler S.backend) x i c with ⟨_, hs⟩ | ⟨op, k, hp, hs⟩
  · rw [hs]
    exact ⟨fun j s m t rows h row hrow => hkeep _ _ (hx.fetched j s m t rows h row hrow),
      fun tick h => hkeep _ _ (hx.published tick h)⟩
  rw [hs]
  refine ⟨fun j symbol marketType timeframe rows hheld row hrow => ?_, fun tick htick => ?_⟩
  · by_cases hj : j = i
    · subst hj
      rw [phase_answered] at hheld
      obtain ⟨limit, -, rfl⟩ := held_fetched hheld
      obtain ⟨r, hr, hkey, hvalues⟩ := mem_fetchOhlcv hrow
      have hP := hread r hr
      rwa [hkey, hvalues] at hP
    · rw [phase_answered_ne _ _ hj] at hheld
      exact hkeep _ _ (hx.fetched j symbol marketType timeframe rows hheld row hrow)
  · rcases (exec_effect S.backend op c x.world).published with hsame | ⟨pushed, rfl, hpush⟩
    · exact hkeep _ _ (hx.published tick (hsame ▸ htick))
    · change tick ∈ (exec S.backend (.queuePush pushed) c x.world).2.published at htick
      rw [hpush] at htick
      rcases List.mem_cons.1 htick with rfl | htick
      · obtain ⟨-, row, older, hheld, rfl⟩ := hd.allows hp
        exact hkeep _ _ (hx.fetched i tick.symbol "spot" "1" _ hheld _ List.mem_cons_self)
      · exact hkeep _ _ (hx.published tick htick)

theorem Seen.step {key : CandleKey} {values : Ohlcv} (h : Seen S db x key values) (i : Task) (c : Env) :
    Seen S db (step (handler S.backend) x (i, c)) key values := by
  rcases step_cases (handler S.backend) x i c with ⟨_, hs⟩ | ⟨op, k, hp, hs⟩
  · rw [hs]
    exact h
  rw [hs]
  obtain ⟨⟨r, hr, hkey⟩, r₀, hknown, hr₀⟩ := h
  obtain ⟨r', hr', hkey'⟩ := (exec_effect S.backend op c x.world).batch.keys r hr
  exact ⟨⟨r', hr', hkey'.trans hkey⟩, r₀, hknown.imp_right (fun h => h.cons _), hr₀⟩

theorem carried_seen_step (hx : Traced S db x) (h : Carried S (Seen S db x) x) (i : Task) (c : Env) :
    Carried S (Seen S db (step (handler S.backend) x (i, c))) (step (handler S.backend) x (i, c)) :=
  carried_step hx.disciplined h (fun r hr => Seen.step ⟨⟨r, hr, rfl⟩, r, hx.stored r hr, rfl, rfl⟩ i c)
    (fun _ _ h => h.step i c) i c

/-- The stored candle is the very one. -/
def Exact (x : Pool) (key : CandleKey) (values : Ohlcv) : Prop :=
  ∃ r ∈ x.world.db.rawOhlcv.rows, r.key = key ∧ r.values = values

theorem Exact.step (hbackend : S.backend = .postgres) {key : CandleKey} {values : Ohlcv} (h : Exact x key values)
    (i : Task) (c : Env) : Exact (step (handler S.backend) x (i, c)) key values := by
  rcases step_cases (handler S.backend) x i c with ⟨_, hs⟩ | ⟨op, k, hp, hs⟩
  · rw [hs]
    exact h
  rw [hs]
  obtain ⟨r, hr, h⟩ := h
  have heffect := exec_effect S.backend op c x.world
  rw [hbackend] at heffect
  refine ⟨r, ?_, h⟩
  rw [handler_exec, hbackend]
  exact heffect.mem_postgres hr

theorem carried_exact_step (hbackend : S.backend = .postgres) (hx : Traced S db x) (h : Carried S (Exact x) x)
    (i : Task) (c : Env) : Carried S (Exact (step (handler S.backend) x (i, c))) (step (handler S.backend) x (i, c)) :=
  carried_step hx.disciplined h (fun r hr => Exact.step hbackend ⟨r, hr, rfl, rfl⟩ i c)
    (fun _ _ h => h.step hbackend i c) i c

/-- The published ticks of a symbol are in the order of their times, and what the main task
has fetched for it is not older than any of them. -/
structure Ordered (S : Config) (x : Pool) : Prop where
  newest : ∀ symbol row older, phase (hands S.py .main) .main x.trace = .fetched symbol "spot" "1" (row :: older) →
    ∀ tick ∈ x.world.published, tick.symbol = symbol → tick.ts ≤ row.1
  sorted : x.world.published.Pairwise (fun later earlier => later.symbol = earlier.symbol → earlier.ts ≤ later.ts)

theorem ordered_step (hx : Traced S db x) (hseen : Carried S (Seen S db x) x) (h : Ordered S x) (i : Task) (c : Env) :
    Ordered S (step (handler S.backend) x (i, c)) := by
  rcases step_cases (handler S.backend) x i c with ⟨_, hs⟩ | ⟨op, k, hp, hs⟩
  · rw [hs]
    exact h
  rw [hs]
  have hallows := hx.disciplined.allows hp
  rcases (exec_effect S.backend op c x.world).published with hsame | ⟨pushed, rfl, hpush⟩
  · refine ⟨fun symbol row older hheld tick htick hsymbol => ?_, ?_⟩
    · rw [handler_exec, hsame] at htick
      by_cases hi : i = .main
      · subst hi
        rw [phase_answered] at hheld
        obtain ⟨limit, -, hrows⟩ := held_fetched hheld
        obtain ⟨r, hr, hkey⟩ := (hseen.published tick htick).stored
        rw [hsymbol] at hkey
        exact le_of_fetchOhlcv hrows.symm hr hkey
      · rw [phase_answered_ne _ _ (Ne.symm hi)] at hheld
        exact h.newest symbol row older hheld tick htick hsymbol
    · rw [handler_exec, hsame]
      exact h.sorted
  · obtain ⟨rfl, row, older, hheld, hrow⟩ := hallows
    refine ⟨fun symbol row older hnext => ?_, ?_⟩
    · rw [phase_answered] at hnext
      cases hnext
    · rw [handler_exec, hpush, List.pairwise_cons]
      refine ⟨fun tick htick hsymbol => ?_, h.sorted⟩
      have hle := h.newest pushed.symbol row older hheld tick htick hsymbol.symm
      rwa [← hrow] at hle

variable (S db)

/-- What every reachable state of the pipeline has. -/
structure Inv (x : Pool) : Prop where
  traced : Traced S db x
  seen : Carried S (Seen S db x) x
  exact : S.backend = .postgres → Carried S (Exact x) x
  ordered : Ordered S x

variable {S db}

theorem inv_step (h : Inv S db x) (i : Task) (c : Env) : Inv S db (step (handler S.backend) x (i, c)) where
  traced := traced_step h.traced i c
  seen := carried_seen_step h.traced h.seen i c
  exact hbackend := carried_exact_step hbackend h.traced (h.exact hbackend) i c
  ordered := ordered_step h.traced h.seen h.ordered i c

theorem inv_runs (S : Config) (db : QuantDb) (ls : List (Task × Env)) : Inv S db (S.runs db ls) :=
  run_invariant (fun x (l : Task × Env) (h : Inv S db x) => inv_step h l.1 l.2)
    ⟨traced_begin, carried_begin, fun _ => carried_begin, fun _ _ _ _ _ h => (nomatch h), List.Pairwise.nil⟩ ls

end Rows

/-- However the threads interleave, whatever fails and whichever store is behind them, the
published ticks of a symbol never go back in time. -/
theorem published_ts_sorted (S : Config) (db : QuantDb) (ls : List (Task × Env)) :
    (S.runs db ls).world.published.Pairwise
      (fun later earlier => later.symbol = earlier.symbol → earlier.ts ≤ later.ts) :=
  (inv_runs S db ls).ordered.sorted

/-- A published tick has the values of a one-minute candle that the exchange has answered, or
that was stored before, and the store still has a candle of that time. -/
theorem published_tick_seen (S : Config) (db : QuantDb) (ls : List (Task × Env)) :
    ∀ tick ∈ (S.runs db ls).world.published,
      Seen S db (S.runs db ls) ⟨tick.symbol, "spot", "1", tick.ts⟩ tick.values :=
  (inv_runs S db ls).seen.published

/-- A database with one candle. -/
def minute : Candle := ⟨⟨"BTCUSDT", "spot", "1", 60000⟩, ⟨100, 101, 99, 100, 5⟩, none⟩

def oneMinute : QuantDb :=
  ⟨⟨[minute], List.nodup_singleton _⟩, Table.empty, Table.empty, Table.empty, Table.empty, Table.empty, Table.empty,
    [], 0⟩

/-- The number of a text of digits. -/
def digits (text : String) : Option ℤ :=
  if text.toList.all Char.isDigit then some (text.toList.foldl (fun n c => 10 * n + (c.toNat - '0'.toNat)) 0)
  else none

def bitcoin : Config where
  py := ⟨digits, fun text => (digits text).map Int.cast, fun _ => "", fun x => x - 1⟩
  backend := .postgres
  symbols := ["BTCUSDT"]
  timeframes := ["1"]
  cycles := 2

/-- The minute is answered again, with the values that it has come to have, beside the next one. -/
def answered : Env :=
  ⟨.none, 0, ⟨none, none⟩, ⟨none, none⟩,
    ⟨some 0, some [["120000", "100", "104", "100", "103", "4"], ["60000", "100", "102", "99", "101", "7"]]⟩, .ok ()⟩

/-- A cycle that publishes what is stored before its thread comes to collect, and one after it. -/
def twoCycles : List (Task × Env) :=
  List.replicate 6 (.main, answered) ++ List.replicate 17 (.thread 0 0, answered) ++ List.replicate 5 (.main, answered)

def nextMinute : Tick := ⟨"BTCUSDT", 120000, ⟨100, 104, 100, 103, 4⟩⟩

theorem published_twoCycles :
    (bitcoin.runs oneMinute twoCycles).world.published = [nextMinute, ⟨"BTCUSDT", 60000, minute.values⟩] := by
  decide +kernel

theorem published_tick_seen_twoCycles :
    Seen bitcoin oneMinute (bitcoin.runs oneMinute twoCycles) ⟨"BTCUSDT", "spot", "1", 120000⟩ nextMinute.values :=
  published_tick_seen bitcoin oneMinute twoCycles nextMinute (published_twoCycles ▸ List.mem_cons_self)

/-- On Postgres a minute is published with the same values however often it is, those that
its candle has in the store. -/
theorem published_tick_exact (S : Config) (hbackend : S.backend = .postgres) (db : QuantDb) (ls : List (Task × Env)) :
    ∀ tick ∈ (S.runs db ls).world.published,
      Exact (S.runs db ls) ⟨tick.symbol, "spot", "1", tick.ts⟩ tick.values ∧
      ∀ tick' ∈ (S.runs db ls).world.published, tick'.symbol = tick.symbol → tick'.ts = tick.ts → tick' = tick := by
  intro tick htick
  have hexact := ((inv_runs S db ls).exact hbackend).published tick htick
  refine ⟨hexact, fun tick' htick' hsymbol hts => ?_⟩
  obtain ⟨r, hr, hkey, hvalues⟩ := hexact
  obtain ⟨r', hr', hkey', hvalues'⟩ := ((inv_runs S db ls).exact hbackend).published tick' htick'
  have hsame : r' = r := by
    refine List.inj_on_of_nodup_map (S.runs db ls).world.db.rawOhlcv.nodup hr' hr ?_
    rw [hkey, hkey', hsymbol, hts]
  obtain ⟨symbol, ts, values⟩ := tick
  obtain ⟨symbol', ts', values'⟩ := tick'
  rw [Tick.mk.injEq]
  exact ⟨hsymbol, hts, hvalues'.symm.trans ((congrArg Candle.values hsame).trans hvalues)⟩

theorem published_tick_exact_twoCycles :
    Exact (bitcoin.runs oneMinute twoCycles) ⟨"BTCUSDT", "spot", "1", 120000⟩ nextMinute.values ∧
      ∀ tick ∈ (bitcoin.runs oneMinute twoCycles).world.published,
        tick.symbol = "BTCUSDT" → tick.ts = 120000 → tick = nextMinute :=
  published_tick_exact bitcoin rfl oneMinute twoCycles nextMinute (published_twoCycles ▸ List.mem_cons_self)

end Autr.Collection.PublishedTicks
