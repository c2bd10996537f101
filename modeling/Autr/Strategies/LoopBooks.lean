import Autr.Async.Runs
import Autr.Strategies.TradingLoop

namespace Autr.Strategies.LoopBooks

open Async Decimal Engines Infra Infra.TradeTracker Services.StrategyConsumer TradingLoop

/-- The rounds that the trades of one strategy make: each sell gives back what the buy before
it took, and the last buy may still be held. -/
inductive Rounds (S : Strategy) : List Trade → Option ℚ → Prop
  | none : Rounds S [] none
  | bought (decision : Decision) {ts : List Trade} {q : ℚ} (before : Rounds S ts none) :
      Rounds S (ts ++ [S.buyTrade decision q]) (some q)
  | sold (decision : Decision) {ts : List Trade} {q : ℚ} (before : Rounds S ts (some q)) :
      Rounds S (ts ++ [S.sellTrade decision q]) none

def ownTrades (symbol : String) (trades : List Trade) : List Trade := trades.filter (fun t => t.symbol = symbol)

/-- What a restart reads from the trades. -/
def netQuantity (symbol : String) (trades : List Trade) : ℚ :=
  ((getCurrentPositions symbol "spot" trades).map CurrentPosition.totalQuantity).getD 0

/-- A quantity that eight decimals show in full. -/
def OnGrid (q : ℚ) : Prop := ∃ k : ℤ, q = (k : ℚ) / 10 ^ 8

structure Recorded (S : Strategy) (trades : List Trade) (held : Option ℚ) : Prop where
  rounds : Rounds S (ownTrades S.symbol trades) held
  pos : ∀ q ∈ held, 0 < q
  grid : ∀ q ∈ held, OnGrid q

/-- The object holds what its trades say. -/
def Agrees (t : Trader) (held : Option ℚ) : Prop := t.long = held.isSome ∧ t.tradeAmount = held

def Held (S : Strategy) (x : Process) : Prop := ∃ held, Recorded S x.2.trades held ∧ Agrees x.1 held

section Rounds

variable {S : Strategy} {ts : List Trade} {held : Option ℚ}

theorem hasSide_buyTrade (decision : Decision) (q : ℚ) : (S.buyTrade decision q).hasSide "buy" = true := by
  change decide (Text.lower "Buy".toList = "buy".toList) = true
  decide

theorem hasSide_sellTrade (decision : Decision) (q : ℚ) :
    (S.sellTrade decision q).hasSide "buy" = false ∧ (S.sellTrade decision q).hasSide "sell" = true := by
  change decide (Text.lower "Sell".toList = "buy".toList) = false ∧
    decide (Text.lower "Sell".toList = "sell".toList) = true
  decide

theorem counted_of_side {t : Trade} (hside : t.hasSide "buy" = true ∨ t.hasSide "sell" = true)
    (hstatus : t.status = "filled") : t.counted = true := by
  have hfilled : decide (Text.lower t.status.toList = "filled".toList) = true := by
    rw [hstatus]
    decide
  rcases hside with h | h <;> simp [Trade.counted, h, of_decide_eq_true hfilled]

theorem Rounds.own (h : Rounds S ts held) :
    ∀ t ∈ ts, t.counted = true ∧ t.symbol = S.symbol ∧ t.positionType = "spot" := by
  induction h with
  | none => simp
  | bought decision before ih =>
      intro t ht
      rcases List.mem_append.1 ht with ht | ht
      · exact ih t ht
      · rw [List.mem_singleton.1 ht]
        exact ⟨counted_of_side (.inl (hasSide_buyTrade decision _)) rfl, rfl, rfl⟩
  | sold decision before ih =>
      intro t ht
      rcases List.mem_append.1 ht with ht | ht
      · exact ih t ht
      · rw [List.mem_singleton.1 ht]
        exact ⟨counted_of_side (.inr (hasSide_sellTrade decision _).2) rfl, rfl, rfl⟩

theorem Rounds.sum (h : Rounds S ts held) : (ts.map (Trade.signed Trade.quantity)).sum = held.getD 0 := by
  induction h with
  | none => rfl
  | @bought decision ts q before ih =>
      have hsigned : Trade.signed Trade.quantity (S.buyTrade decision q) = q := if_pos (hasSide_buyTrade decision q)
      rw [List.map_append, List.sum_append, ih, List.map_singleton, List.sum_singleton, hsigned]
      exact zero_add q
  | @sold decision ts q before ih =>
      obtain ⟨hbuy, hsell⟩ := hasSide_sellTrade (S := S) decision q
      have hsigned : Trade.signed Trade.quantity (S.sellTrade decision q) = -q := by
        rw [Trade.signed, hbuy, if_neg Bool.false_ne_true, if_pos hsell]
        rfl
      rw [List.map_append, List.sum_append, ih, List.map_singleton, List.sum_singleton, hsigned]
      exact add_neg_cancel q

theorem groupOf_own {trades : List Trade} (h : Rounds S (ownTrades S.symbol trades) held) (positionType : String) :
    groupOf S.symbol positionType trades = if positionType = "spot" then ownTrades S.symbol trades else [] := by
  have hgroup : groupOf S.symbol positionType trades =
      (ownTrades S.symbol trades).filter (fun t => t.counted ∧ t.positionType = positionType) := by
    rw [groupOf, ownTrades, List.filter_filter]
    refine List.filter_congr (fun t _ => ?_)
    by_cases hs : t.symbol = S.symbol <;> simp [hs, and_comm]
  rw [hgroup]
  split
  · next hspot =>
      refine List.filter_eq_self.2 (fun t ht => ?_)
      obtain ⟨hcounted, -, htype⟩ := h.own t ht
      simp [hcounted, htype, hspot]
  · next hspot =>
      refine List.filter_eq_nil_iff.2 (fun t ht => ?_)
      obtain ⟨-, -, htype⟩ := h.own t ht
      simp [htype, Ne.symm hspot]

theorem Recorded.net {trades : List Trade} (h : Recorded S trades held) :
    netQuantity S.symbol trades = held.getD 0 := by
  have hlisted : listedTrades S.symbol "spot" trades = ownTrades S.symbol trades := by
    have hspot : groupOf S.symbol "spot" trades = ownTrades S.symbol trades := (groupOf_own h.rounds "spot").trans rfl
    have hempty : groupOf S.symbol "" trades = [] := (groupOf_own h.rounds "").trans rfl
    rw [listedTrades, if_neg (by decide), hspot, hempty]
    split
    · next hnone => exact hnone.2.symm
    · rfl
  rw [netQuantity, getCurrentPositions, hlisted, ← h.rounds.sum]
  cases ownTrades S.symbol trades with
  | nil => rfl
  | cons t ts => rfl

theorem ownTrades_append_own {symbol : String} {t : Trade} (h : t.symbol = symbol) (trades : List Trade) :
    ownTrades symbol (trades ++ [t]) = ownTrades symbol trades ++ [t] := by
  simp [ownTrades, h]

theorem ownTrades_append_other {symbol : String} {t : Trade} (h : t.symbol ≠ symbol) (trades : List Trade) :
    ownTrades symbol (trades ++ [t]) = ownTrades symbol trades := by
  simp [ownTrades, h]

section Append

variable {trades : List Trade} {q : ℚ}

theorem Recorded.bought (h : Recorded S trades none) (decision : Decision) (hpos : 0 < q) (hgrid : OnGrid q) :
    Recorded S (trades ++ [S.buyTrade decision q]) (some q) where
  rounds := by
    have hsymbol : (S.buyTrade decision q).symbol = S.symbol := rfl
    rw [ownTrades_append_own hsymbol]
    exact .bought decision h.rounds
  pos := by
    rintro _ ⟨⟩
    exact hpos
  grid := by
    rintro _ ⟨⟩
    exact hgrid

theorem Recorded.sold (h : Recorded S trades (some q)) (decision : Decision) :
    Recorded S (trades ++ [S.sellTrade decision q]) none where
  rounds := by
    have hsymbol : (S.sellTrade decision q).symbol = S.symbol := rfl
    rw [ownTrades_append_own hsymbol]
    exact .sold decision h.rounds
  pos := nofun
  grid := nofun

theorem Recorded.other (h : Recorded S trades held) {t : Trade} (ht : t.symbol ≠ S.symbol) :
    Recorded S (trades ++ [t]) held :=
  ⟨(ownTrades_append_other ht trades).symm ▸ h.rounds, h.pos, h.grid⟩

end Append

end Rounds

theorem roundTo_of_grid {q : ℚ} (h : OnGrid q) : roundTo 8 q = q := by
  obtain ⟨k, rfl⟩ := h
  exact le_antisymm (roundTo_le le_rfl) (le_roundTo le_rfl)

theorem symbolPrecision_le (symbol : String) : Bybit.symbolPrecision symbol ≤ 8 := by
  unfold Bybit.symbolPrecision
  split <;> decide

theorem floorTo_onGrid {p : ℕ} (hp : p ≤ 8) (x : ℚ) : OnGrid (floorTo p x) := by
  refine ⟨⌊x * 10 ^ p⌋ * 10 ^ (8 - p), ?_⟩
  have h8 : (10 : ℚ) ^ 8 = 10 ^ p * 10 ^ (8 - p) := by rw [← pow_add, Nat.add_sub_cancel' hp]
  rw [floorTo, h8]
  push_cast
  rw [mul_div_mul_right _ _ (by positivity)]

section Client

variable {cfg : Bybit.Config} {c : Env} {symbol : String} {q : ℚ}

theorem calculated_buy (hmin : 0 < cfg.minOrderSize) (h : c.calculated cfg symbol .buy = some q) :
    0 ≤ q ∧ OnGrid q := by
  simp only [Env.calculated, Bybit.safeOrderSize] at h
  split_ifs at h with hquote hlow hmax
  cases h
  refine ⟨?_, floorTo_onGrid (symbolPrecision_le symbol) _⟩
  have hpos : 0 ≤ min (Bybit.availableOf c.balances "USDT") cfg.maxTradeAmount * (cfg.maxPositionPercentage / 100) /
      c.quote := div_nonneg (hmin.le.trans (not_lt.1 hmax)) (not_le.1 hquote).le
  have hzero : ((0 : ℤ) : ℚ) / 10 ^ Bybit.symbolPrecision symbol ≤
      floorTo (Bybit.symbolPrecision symbol) _ := le_floorTo (by simpa using hpos)
  simpa using hzero

theorem filled_pos (hmin : 0 < cfg.minOrderSize) {side : Bybit.Side} (hq : 0 ≤ q)
    (h : c.filled cfg symbol side (some q) = true) : 0 < q := by
  have hguard : Bybit.orderGuard cfg side q c.price = none := by
    simp only [Env.filled, Option.orElse_eq_orElse, Option.orElse_some, Bool.and_eq_true, decide_eq_true_eq] at h
    exact h.1.2
  refine lt_of_le_of_ne hq (fun h0 => ?_)
  have hbelow : 0 * c.price < cfg.minOrderSize := by rwa [zero_mul]
  rw [Bybit.orderGuard, ← h0, if_pos hbelow] at hguard
  split at hguard <;> cases hguard

end Client

/-- The statements that the records depend on succeed. -/
structure Stores (f : Op → Env) : Prop where
  add : ∀ trade, (f (.addTrade trade)).fault = none
  read : (f .getCurrentPositions).fault = none

def Keeps {α : Type} (S : Strategy) (cfg : Bybit.Config) (f : Op → Env) (m : Method α) : Prop :=
  ∀ x, Held S x → Held S (call cfg f m x).2

section Keeps

variable {α β : Type} {S : Strategy} {cfg : Bybit.Config} {f : Op → Env}

theorem keeps_pure (a : α) : Keeps S cfg f (pure a) := fun _ hx => hx

theorem keeps_throw (e : String) : Keeps S cfg f (throw e : Method α) := fun _ hx => hx

theorem keeps_get : Keeps S cfg f (get : Method Trader) := fun _ hx => hx

theorem keeps_bind {m : Method α} {k : α → Method β} (hm : Keeps S cfg f m) (hk : ∀ a, Keeps S cfg f (k a)) :
    Keeps S cfg f (m >>= k) := by
  intro x hx
  have hy := hm x hx
  rw [call_bind]
  rcases hcall : call cfg f m x with ⟨e | a, y⟩ <;> rw [hcall] at hy
  · exact hy
  · exact hk a y hy

theorem keeps_modify {g : Trader → Trader} (hg : ∀ t, (g t).long = t.long ∧ (g t).tradeAmount = t.tradeAmount) :
    Keeps S cfg f (modify g : Method Unit) := by
  rintro x ⟨held, hrecorded, hlong, hamount⟩
  exact ⟨held, hrecorded, (hg x.1).1.trans hlong, (hg x.1).2.trans hamount⟩

theorem keeps_waitBar : Keeps S cfg f waitBar := keeps_modify (fun _ => ⟨rfl, rfl⟩)

theorem keeps_ofOption (error : String) (a : Option α) : Keeps S cfg f (ofOption error a) := by
  cases a with
  | none => exact keeps_throw error
  | some a => exact keeps_pure a

/-- Calls that record no trade. -/
theorem keeps_act {op : Op} (hop : ∀ trade, op ≠ .addTrade trade) : Keeps S cfg f (act op) := by
  rintro x ⟨held, hrecorded, hagrees⟩
  refine ⟨held, ?_, hagrees⟩
  have htrades : (exec cfg op (f op) x.2).2.trades = x.2.trades := by
    cases op with
    | addTrade trade => exact absurd rfl (hop trade)
    | addSignalLog entry => rcases h : (f (.addSignalLog entry)).fault with _ | _ | _ <;> simp [exec, Env.stored, h]
    | getCurrentPositions => cases h : (f .getCurrentPositions).fault <;> simp [exec, h]
    | _ => rfl
  rw [call_act]
  exact htrades ▸ hrecorded

theorem call_calculateSafeOrderSize (symbol : String) (side : Bybit.Side) (x : Process) :
    call cfg f (act (.calculateSafeOrderSize symbol side)) x =
      (.ok ((f (.calculateSafeOrderSize symbol side)).calculated cfg symbol side), x) := rfl

theorem call_placeOrder (symbol : String) (side : Bybit.Side) (qty : Option ℚ) (x : Process) :
    call cfg f (act (.placeOrder symbol side qty)) x =
      (.ok ((f (.placeOrder symbol side qty)).filled cfg symbol side qty), x) := rfl

theorem call_addTrade (hf : Stores f) (trade : Trade) (x : Process) :
    call cfg f (act (.addTrade trade)) x = (.ok (), x.1, { x.2 with trades := x.2.trades ++ [trade] }) := by
  have hexec : exec cfg (.addTrade trade) (f (.addTrade trade)) x.2 =
      (.ok (), { x.2 with trades := x.2.trades ++ [trade] }) := by
    simp [exec, Env.stored, hf.add trade]
  refine (call_act (.addTrade trade)).trans ?_
  rw [hexec]

theorem keeps_executeBuy (hmin : 0 < cfg.minOrderSize) (hf : Stores f) (decision : Decision) :
    Keeps S cfg f (S.executeBuy decision) := by
  rintro x ⟨held, hrecorded, hlong, hamount⟩
  have hwait := (keeps_waitBar : Keeps S cfg f waitBar) x ⟨held, hrecorded, hlong, hamount⟩
  rw [Strategy.executeBuy, call_bind, call_get]
  dsimp only
  split
  · exact hwait
  · next hflat =>
      have hnone : held = none := by
        rw [hlong] at hflat
        simpa using hflat
      subst hnone
      rw [call_bind, call_calculateSafeOrderSize]
      cases hsize : (f (.calculateSafeOrderSize S.symbol .buy)).calculated cfg S.symbol .buy with
      | none => exact hwait
      | some q =>
          dsimp only
          rw [call_bind, call_placeOrder]
          cases hfilled : (f (.placeOrder S.symbol .buy (some q))).filled cfg S.symbol .buy (some q) with
          | false => exact hwait
          | true =>
              obtain ⟨hnonneg, hgrid⟩ := calculated_buy hmin hsize
              simp only [Bool.not_true, Bool.false_eq_true, if_false, call_bind, call_modify, call_addTrade hf]
              exact ⟨some q, hrecorded.bought decision (filled_pos hmin hnonneg hfilled) hgrid, rfl, rfl⟩

theorem keeps_executeSell (hf : Stores f) (decision : Decision) : Keeps S cfg f (S.executeSell decision) := by
  rintro x ⟨held, hrecorded, hlong, hamount⟩
  have hwait := (keeps_waitBar : Keeps S cfg f waitBar) x ⟨held, hrecorded, hlong, hamount⟩
  rw [Strategy.executeSell, call_bind, call_get]
  dsimp only
  split
  · exact hwait
  · next hholds =>
      obtain ⟨q, rfl⟩ : ∃ q, held = some q := by
        rw [hlong] at hholds
        exact Option.ne_none_iff_exists'.1 (by simpa using hholds)
      rw [call_bind, call_placeOrder]
      cases hfilled : (f (.placeOrder S.symbol .sell none)).filled cfg S.symbol .sell none with
      | false => exact hwait
      | true =>
          simp only [Bool.not_true, Bool.false_eq_true, if_false, call_bind, call_get, call_modify, call_addTrade hf,
            hamount, Option.getD_some]
          exact ⟨none, hrecorded.sold decision, rfl, rfl⟩

variable (hmin : 0 < cfg.minOrderSize) (hf : Stores f)

include hmin hf

theorem keeps_follow (decision : Decision) (frame : List Frames.FrameRow) :
    Keeps S cfg f (S.follow decision frame) := by
  rw [Strategy.follow]
  split
  · exact keeps_throw _
  · refine keeps_bind (keeps_modify (fun _ => ⟨rfl, rfl⟩)) (fun _ => keeps_bind keeps_get (fun t =>
      keeps_bind (keeps_act (by simp)) (fun _ => ?_)))
    cases decision.signal with
    | buy => exact keeps_executeBuy hmin hf decision
    | sell => exact keeps_executeSell hf decision
    | hold => exact keeps_waitBar

theorem keeps_executeStrategy : Keeps S cfg f S.executeStrategy := by
  have hread : ∀ symbol interval limit, Keeps S cfg f (act (.getKlineData symbol interval limit)) :=
    fun _ _ _ => keeps_act (by simp)
  rw [Strategy.executeStrategy]
  split
  · refine keeps_bind (keeps_ofOption _ _) (fun slow => keeps_bind (keeps_ofOption _ _) (fun _ =>
      keeps_bind (hread _ _ _) (fun htfRaw => keeps_bind (keeps_ofOption _ _) (fun _ =>
      keeps_bind (keeps_ofOption _ _) (fun _ => keeps_bind (hread _ _ _) (fun ltfRaw => ?_))))))
    dsimp only
    split
    · exact keeps_pure ()
    · exact keeps_bind (keeps_ofOption _ _) (fun _ => keeps_bind (keeps_ofOption _ _) (fun _ =>
        keeps_bind keeps_get (fun _ => keeps_bind (keeps_ofOption _ _) (fun decision => keeps_follow hmin hf _ _))))
  · refine keeps_bind (keeps_ofOption _ _) (fun _ => keeps_bind (keeps_ofOption _ _) (fun _ =>
      keeps_bind (hread _ _ _) (fun raw => ?_)))
    dsimp only
    split
    · exact keeps_pure ()
    · exact keeps_bind (keeps_ofOption _ _) (fun _ => keeps_bind keeps_get (fun _ =>
        keeps_bind (keeps_ofOption _ _) (fun decision => keeps_follow hmin hf _ _)))

end Keeps

/-- What happens to a strategy: the program is started anew and builds the object, its loop
is entered, makes a turn or is stopped, and trades of other symbols are recorded. -/
inductive Event
  | build (cooldownBars : ℕ)
  | start
  | turn
  | stop
  | other (trade : Trade)

def Process.next (S : Strategy) (cfg : Bybit.Config) (x : Process) (l : Event × (Op → Env)) : Process :=
  match l.1 with
  | .build cooldownBars => (Strategy.fresh cooldownBars, x.2)
  | .start => (call cfg l.2 S.startTrading x).2
  | .turn => (call cfg l.2 S.turn x).2
  | .stop => (call cfg l.2 Strategy.stopTrading x).2
  | .other trade => (x.1, { x.2 with trades := x.2.trades ++ [trade] })

/-- The statements succeed that the records depend on, and other trades are of other symbols. -/
def Sound (S : Strategy) (l : Event × (Op → Env)) : Prop :=
  Stores l.2 ∧ ∀ trade, l.1 = .other trade → trade.symbol ≠ S.symbol

/-- The trades make rounds, and an object whose loop runs holds what they say. -/
def Followed (S : Strategy) (x : Process) : Prop :=
  ∃ held, Recorded S x.2.trades held ∧ (x.1.isActive = true → Agrees x.1 held)

section Run

variable {S : Strategy} {cfg : Bybit.Config} {f : Op → Env} {x : Process}

theorem call_startTrading (hf : Stores f) {held : Option ℚ} (h : Recorded S x.2.trades held) :
    (call cfg f S.startTrading x).2 =
      ({ x.1 with isActive := true, long := held.isSome, tradeAmount := held }, x.2) := by
  have hread : call cfg f (act .getCurrentPositions) x =
      (.ok (fun symbol => getCurrentPositions symbol "spot" x.2.trades), x) := by
    have hexec : exec cfg .getCurrentPositions (f .getCurrentPositions) x.2 =
        (.ok (fun symbol => getCurrentPositions symbol "spot" x.2.trades), x.2) := by
      simp [exec, hf.read]
    refine (call_act .getCurrentPositions).trans ?_
    rw [hexec]
  have hnet : ((getCurrentPositions S.symbol "spot" x.2.trades).map CurrentPosition.totalQuantity).getD 0 =
      held.getD 0 := h.net
  rw [Strategy.startTrading, call_bind, Strategy.restoreStateFromDb, call_swallow, call_bind, hread]
  dsimp only
  rw [hnet, call_modify, call_modify]
  cases held with
  | none => simp
  | some q => simp [h.pos q rfl, roundTo_of_grid (h.grid q rfl)]

theorem followed_step (hmin : 0 < cfg.minOrderSize) (hx : Followed S x) {l : Event × (Op → Env)} (hl : Sound S l) :
    Followed S (Process.next S cfg x l) := by
  obtain ⟨held, hrecorded, hagrees⟩ := hx
  obtain ⟨event, f⟩ := l
  obtain ⟨hf, hother⟩ := hl
  cases event with
  | build cooldownBars => exact ⟨held, hrecorded, fun hactive => absurd hactive Bool.false_ne_true⟩
  | start =>
      refine ⟨held, ?_, fun _ => ?_⟩ <;> rw [Process.next, call_startTrading hf hrecorded]
      · exact hrecorded
      · exact ⟨rfl, rfl⟩
  | turn =>
      rw [Process.next, Strategy.turn, call_bind, call_get]
      dsimp only
      split
      · next hactive =>
          rw [call_swallow]
          obtain ⟨held', hrecorded', hagrees'⟩ := keeps_executeStrategy hmin hf x ⟨held, hrecorded, hagrees hactive⟩
          exact ⟨held', hrecorded', fun _ => hagrees'⟩
      · exact ⟨held, hrecorded, hagrees⟩
  | stop => exact ⟨held, hrecorded, fun hactive => absurd hactive Bool.false_ne_true⟩
  | other trade => exact ⟨held, hrecorded.other (hother trade rfl), hagrees⟩

/-- Over any number of turns, stops and restarts of one of the four strategy loops, whatever
the exchange answers: the trades of its symbol make rounds in which each sell gives back what
the buy before it took, the net quantity of the trades is what is held, and the object holds
just that, also after a restart. -/
theorem loop_follows_trades (S : Strategy) (cfg : Bybit.Config) (hmin : 0 < cfg.minOrderSize) (cooldownBars : ℕ)
    (w : World) (hw : ∀ t ∈ w.trades, t.symbol ≠ S.symbol) (ls : List (Event × (Op → Env)))
    (hls : ∀ l ∈ ls, Sound S l) :
    let x := ls.foldl (Process.next S cfg) (Strategy.fresh cooldownBars, w)
    ∃ held, Rounds S (ownTrades S.symbol x.2.trades) held ∧ (∀ q ∈ held, 0 < q) ∧
      netQuantity S.symbol x.2.trades = held.getD 0 ∧
      (x.1.isActive = true → x.1.long = held.isSome ∧ x.1.tradeAmount = held) := by
  have hnone : ownTrades S.symbol w.trades = [] :=
    List.filter_eq_nil_iff.2 (fun t ht => by simpa using hw t ht)
  have hstart : Followed S (Strategy.fresh cooldownBars, w) :=
    ⟨none, ⟨hnone ▸ .none, nofun, nofun⟩, fun hactive => absurd hactive Bool.false_ne_true⟩
  have hrun : AlwaysRun (Process.next S cfg) (Followed S) _ ls :=
    alwaysRun_of_step (fun _ _ hx hl => followed_step hmin hx hl) hstart (alongRun_of_forall hls)
  obtain ⟨held, hrecorded, hagrees⟩ := hrun.last
  exact ⟨held, hrecorded.rounds, hrecorded.pos, hrecorded.net, hagrees⟩

end Run

/-- A breakout strategy that looks back on one row. -/
def quick : Strategy where
  engine := ⟨.breakoutVolume, .breakoutVolume,
    [("interval", .str "15"), ("lookback_bars", .int 260), ("breakout_period", .int 1), ("volume_ma_period", .int 1),
      ("volume_multiplier", .float 1), ("atr_period", .int 1), ("initial_stop_atr_mult", .float 2),
      ("trailing_stop_atr_mult", .float (5 / 2)), ("cooldown_bars", .int 3)]⟩
  symbol := "BTCUSDT"
  sqrt := id

/-- Three rising candles, newest first, and a wallet of 30 USDT at a price of 30000. -/
def rising : Env where
  kline := [(3, 110), (2, 105), (1, 100)].map fun (ts, x) => some (ts, ⟨x, x + 1, x - 1, x, 1⟩)
  quote := 30000
  balances coin := if coin = "USDT" then some ⟨30, 30⟩ else none
  price := 30000
  accepted := true
  fault := none

/-- A buy, and a restart that finds it. -/
def buyAndRestart : List (Event × (Op → Env)) :=
  [.start, .turn, .build 3, .start, .turn].map (fun event => (event, fun _ => rising))

theorem loop_follows_trades_restart :
    let x := buyAndRestart.foldl (Process.next quick ⟨true, 30, 5, 80⟩) (Strategy.fresh 3, ⟨[], []⟩)
    ∃ held, Rounds quick (ownTrades "BTCUSDT" x.2.trades) held ∧ (∀ q ∈ held, 0 < q) ∧
      netQuantity "BTCUSDT" x.2.trades = held.getD 0 ∧
      (x.1.isActive = true → x.1.long = held.isSome ∧ x.1.tradeAmount = held) :=
  loop_follows_trades quick ⟨true, 30, 5, 80⟩ (by norm_num) 3 ⟨[], []⟩ nofun buyAndRestart (by
    simp [buyAndRestart, Sound, Stores.mk, rising])

end Autr.Strategies.LoopBooks
