import Autr.Infra.OrderAttempts
import Mathlib.Tactic.Linarith

namespace Autr.Infra.OrderSize

open Autr.Async Bybit Decimal OrderAttempts

/-- The amount of a buy: the smaller one of the free balance and the limit of a trade,
reduced to the part a position may take. -/
def buyAmount (cfg : Config) (b : Balances) : ℚ :=
  min (availableOf b "USDT") cfg.maxTradeAmount * (cfg.maxPositionPercentage / 100)

/-- The smallest quantity of a coin that can be ordered. -/
def step (symbol : String) : ℚ := 1 / 10 ^ symbolPrecision symbol

variable {W C : Type} {h : Handler Http Http.Res Exc W C} {f : Http → C} {cfg : Config}
  {symbol orderType : String} {price q : ℚ} {b : Balances} {w w₁ w₂ v v₁ : W}

theorem calculated (side : Side) (hp : eval h f (getCurrentPrice symbol) w = (.ok price, w₁))
    (hpos : 0 < price) (hb : eval h f (getBalance cfg) w₁ = (.ok b, w₂)) :
    (eval h f (calculateSafeOrderSize cfg symbol side) w).1 = .ok (safeOrderSize cfg symbol side price b) := by
  simp [calculateSafeOrderSize, hp, hb, not_le.2 hpos]

theorem safeOrderSize_buy (hpos : 0 < price) (hq : safeOrderSize cfg symbol .buy price b = some q) :
    cfg.minOrderSize ≤ buyAmount cfg b ∧ q = floorTo (symbolPrecision symbol) (buyAmount cfg b / price) := by
  simp only [safeOrderSize, not_le.2 hpos, if_false] at hq
  split_ifs at hq with ha hm
  exact ⟨not_lt.1 hm, (Option.some.inj hq).symm⟩

theorem safeOrderSize_sell (hpos : 0 < price) (hq : safeOrderSize cfg symbol .sell price b = some q) :
    q = floorTo (symbolPrecision symbol) (availableOf b (baseCurrency symbol)) := by
  simp only [safeOrderSize, not_le.2 hpos, if_false] at hq
  split_ifs at hq
  exact (Option.some.inj hq).symm

/-- A quantity is the largest multiple of the coin's step within an amount of the coin. -/
structure Fills (symbol : String) (q amount : ℚ) : Prop where
  multiple : ∃ k : ℤ, q = k * step symbol
  within : q ≤ amount
  next : amount < q + step symbol

theorem fills_floorTo (symbol : String) (x : ℚ) : Fills symbol (floorTo (symbolPrecision symbol) x) x where
  multiple := ⟨⌊x * 10 ^ symbolPrecision symbol⌋, by rw [floorTo, step, mul_one_div]⟩
  within := floorTo_le _ x
  next := lt_floorTo_add _ x

/-- What `calculate_safe_order_size` returns is a multiple of the coin's step; that of a
buy is worth the amount to spend and that of a sell is the free balance, each to within
one step. -/
theorem order_size_fills (side : Side) (hp : eval h f (getCurrentPrice symbol) w = (.ok price, w₁))
    (hpos : 0 < price) (hb : eval h f (getBalance cfg) w₁ = (.ok b, w₂))
    (hq : (eval h f (calculateSafeOrderSize cfg symbol side) w).1 = .ok (some q)) :
    (∃ k : ℤ, q = k * step symbol) ∧ match side with
      | .buy => q * price ≤ buyAmount cfg b ∧ buyAmount cfg b < (q + step symbol) * price
      | .sell => q ≤ availableOf b (baseCurrency symbol) ∧ availableOf b (baseCurrency symbol) < q + step symbol := by
  have hs : safeOrderSize cfg symbol side price b = some q :=
    Except.ok.inj ((calculated side hp hpos hb).symm.trans hq)
  cases side with
  | buy =>
      have hfill : Fills symbol q (buyAmount cfg b / price) := (safeOrderSize_buy hpos hs).2 ▸ fills_floorTo symbol _
      exact ⟨hfill.multiple, (le_div_iff₀ hpos).1 hfill.within, (div_lt_iff₀ hpos).1 hfill.next⟩
  | sell =>
      have hfill : Fills symbol q (availableOf b (baseCurrency symbol)) :=
        safeOrderSize_sell hpos hs ▸ fills_floorTo symbol _
      exact ⟨hfill.multiple, hfill.within, hfill.next⟩

/-- A quote of the price and a wallet with the free USDT balance. -/
def quoted (price usdt : ℚ) : Handler Http Http.Res Exc Unit Unit where
  exec op _ _ := match op with
    | .getTickers _ _ => (.ok ⟨0, "OK", [price]⟩, ())
    | .getWalletBalance => (.ok ⟨0, "OK", [[⟨"USDT", usdt, some usdt, usdt⟩]]⟩, ())
    | .placeOrder _ => (.ok ⟨0, "OK", "order-1"⟩, ())
    | .getOrderHistory _ _ _ => (.ok ⟨0, "OK", []⟩, ())
    | .sleep _ => (.ok (), ())
  clock _ := 0

def wallet (usdt : ℚ) : Balances := addCoin noBalances ⟨"USDT", usdt, some usdt, usdt⟩

theorem order_size_fills_default :
    (∃ k : ℤ, (133 / 500000 : ℚ) = k * step "BTCUSDT") ∧
      133 / 500000 * 30000 ≤ buyAmount defaultConfig (wallet 10) ∧
      buyAmount defaultConfig (wallet 10) < (133 / 500000 + step "BTCUSDT") * 30000 :=
  order_size_fills (h := quoted 30000 10) (f := fun _ => ()) (w := ()) .buy rfl (by decide +kernel) rfl
    (by decide +kernel)

/-- `place_order` stops the order at one of its two size checks. -/
def Refused (r : Except Exc OrderResult) : Prop :=
  ∃ value limit, r = .ok (.failure (.aboveMax value limit)) ∨ r = .ok (.failure (.belowMin value limit))

theorem orderGuard_size {side : Side} {error : OrderError} (hg : orderGuard cfg side q price = some error) :
    error = .aboveMax (q * price) cfg.maxTradeAmount ∨ error = .belowMin (q * price) cfg.minOrderSize := by
  simp only [orderGuard] at hg
  split_ifs at hg <;> simp [← Option.some.inj hg]

/-- Once the guard has passed, no way out is one of the size checks. -/
theorem submitted_returns (req : OrderRequest) (q value limit : ℚ) :
    (Prog.attempt
      (do
        let response ← call (.placeOrder req)
        if response.retCode = 0 then
          let filledQty ← getFilledQty req.symbol response.result q
          return .success response.result filledQty
        else return .failure (.rejected response.retMsg))
      (fun e => return .failure (.exception e)) : Client OrderResult).Returns
        (fun r => r ≠ .failure (.aboveMax value limit) ∧ r ≠ .failure (.belowMin value limit)) := by
  refine Prog.returns_attempt (Prog.returns_bind _ fun response => ?_) (fun e => ⟨by simp, by simp⟩)
  split_ifs
  · exact Prog.returns_bind _ (fun filledQty => ⟨by simp, by simp⟩)
  · exact ⟨by simp, by simp⟩

theorem refused_iff_guard (side : Side) (hauth : cfg.authenticated = true)
    (hv : eval h f (getCurrentPrice symbol) v = (.ok price, v₁)) :
    Refused (eval h f (placeOrder cfg symbol side orderType (some q)) v).1 ↔ orderGuard cfg side q price ≠ none := by
  cases hg : orderGuard cfg side q price with
  | some error =>
      have hout : (eval h f (placeOrder cfg symbol side orderType (some q)) v).1 = .ok (.failure error) := by
        simp [placeOrder, submitOrder, hauth, hv, hg]
      simp only [hout, Refused, ne_eq, reduceCtorEq, not_false_eq_true, iff_true]
      rcases orderGuard_size hg with rfl | rfl <;> simp
  | none =>
      simp only [ne_eq, not_true_eq_false, iff_false]
      rintro ⟨value, limit, hr⟩
      have hend := submitted_returns ⟨.spot, symbol, side, orderType, q, false⟩ q value limit
      have hout := fun r => eval_of_returns h f _ hend v₁ (a := r)
      simp only [placeOrder, submitOrder, hauth, eval_attempt, eval_bind, hv, hg, Bool.not_true, Bool.false_eq_true,
        if_false] at hr hout
      rcases hr with hr | hr
      · exact (hout _ hr).1 rfl
      · exact (hout _ hr).2 rfl

theorem getBalance_unauthenticated (hauth : cfg.authenticated = false)
    (hb : eval h f (getBalance cfg) w₁ = (.ok b, w₂)) : b = noBalances := by
  simp only [getBalance, hauth, Bool.false_eq_true, if_false, eval_pure, Prod.mk.injEq, Except.ok.injEq] at hb
  exact hb.1.symm

theorem buyAmount_noBalances (hpct : 0 ≤ cfg.maxPositionPercentage) : buyAmount cfg noBalances ≤ 0 :=
  mul_nonpos_of_nonpos_of_nonneg (min_le_left (0 : ℚ) _) (by positivity)

/-- Some quantity the coin can be ordered in is worth no less than the minimum and no more
than the amount of the buy. -/
def Orderable (cfg : Config) (symbol : String) (price : ℚ) (b : Balances) : Prop :=
  ∃ k : ℤ, cfg.minOrderSize ≤ k * step symbol * price ∧ k * step symbol * price ≤ buyAmount cfg b

section Limits

variable (hmin : 0 < cfg.minOrderSize) (hpct : 0 ≤ cfg.maxPositionPercentage)
  (hpct' : cfg.maxPositionPercentage ≤ 100)

include hmin hpct hpct'

theorem safeOrderSize_buy_iff (hpos : 0 < price) :
    safeOrderSize cfg symbol .buy price b = some q ↔
      cfg.minOrderSize ≤ buyAmount cfg b ∧ q = floorTo (symbolPrecision symbol) (buyAmount cfg b / price) := by
  refine ⟨safeOrderSize_buy hpos, fun ⟨hm, hq⟩ => ?_⟩
  have hpart : cfg.maxPositionPercentage / 100 ≤ 1 := (div_le_one (by norm_num)).2 hpct'
  have ha : cfg.minOrderSize ≤ min (availableOf b "USDT") cfg.maxTradeAmount := by
    by_contra hlt
    rcases le_or_gt 0 (min (availableOf b "USDT") cfg.maxTradeAmount) with h0 | h0
    · exact hlt (hm.trans (mul_le_of_le_one_right h0 hpart))
    · have hneg : buyAmount cfg b ≤ 0 := mul_nonpos_of_nonpos_of_nonneg h0.le (by positivity)
      exact absurd (hmin.trans_le hm) (not_lt.2 hneg)
  simp only [safeOrderSize, not_le.2 hpos, not_lt.2 ha, if_false]
  exact (if_neg (not_lt.2 hm)).trans (congrArg some hq.symm)

variable (hmax : cfg.minOrderSize ≤ cfg.maxTradeAmount * (cfg.maxPositionPercentage / 100))

include hmax

theorem buyAmount_le_max (b : Balances) : buyAmount cfg b ≤ cfg.maxTradeAmount := by
  have hpart : cfg.maxPositionPercentage / 100 ≤ 1 := (div_le_one (by norm_num)).2 hpct'
  have hpart0 : 0 ≤ cfg.maxPositionPercentage / 100 := by positivity
  have htrade : 0 ≤ cfg.maxTradeAmount := by
    by_contra hneg
    exact absurd (hmin.trans_le hmax) (not_lt.2 (mul_nonpos_of_nonpos_of_nonneg (not_le.1 hneg).le hpart0))
  calc buyAmount cfg b ≤ cfg.maxTradeAmount * (cfg.maxPositionPercentage / 100) :=
        mul_le_mul_of_nonneg_right (min_le_right _ _) hpart0
    _ ≤ cfg.maxTradeAmount := mul_le_of_le_one_right htrade hpart

/-- The floored quantity passes the guard exactly when some quantity on the coin's grid does. -/
theorem orderGuard_floor_iff (hpos : 0 < price) :
    orderGuard cfg .buy (floorTo (symbolPrecision symbol) (buyAmount cfg b / price)) price = none ↔
      Orderable cfg symbol price b := by
  have hfill := fills_floorTo symbol (buyAmount cfg b / price)
  have hvalue : floorTo (symbolPrecision symbol) (buyAmount cfg b / price) * price ≤ buyAmount cfg b :=
    (le_div_iff₀ hpos).1 hfill.within
  have hle := hvalue.trans (buyAmount_le_max hmin hpct hpct' hmax b)
  simp only [orderGuard, not_lt.2 hle, and_false, if_false, ite_eq_right_iff, reduceCtorEq, imp_false, not_lt]
  constructor
  · intro hm
    obtain ⟨k, hk⟩ := hfill.multiple
    exact ⟨k, hk ▸ hm, hk ▸ hvalue⟩
  · rintro ⟨k, hlow, hhigh⟩
    have hk : (k : ℚ) / 10 ^ symbolPrecision symbol ≤ buyAmount cfg b / price := by
      rw [← mul_one_div]
      exact (le_div_iff₀ hpos).2 hhigh
    have hfloor := le_floorTo hk
    rw [← mul_one_div] at hfloor
    exact hlow.trans (mul_le_mul_of_nonneg_right hfloor hpos.le)

/-- In exact arithmetic, a quantity calculated for a buy passes the size checks of
`place_order` at the same price exactly when the amount to spend holds a quantity worth the
minimum on the coin's grid. -/
theorem buy_passes_iff (hpos : 0 < price) (hp : eval h f (getCurrentPrice symbol) w = (.ok price, w₁))
    (hb : eval h f (getBalance cfg) w₁ = (.ok b, w₂)) (hv : eval h f (getCurrentPrice symbol) v = (.ok price, v₁)) :
    (∀ q, (eval h f (calculateSafeOrderSize cfg symbol .buy) w).1 = .ok (some q) →
      ¬ Refused (eval h f (placeOrder cfg symbol .buy orderType (some q)) v).1) ↔
      buyAmount cfg b < cfg.minOrderSize ∨ Orderable cfg symbol price b := by
  have hcalc : ∀ q, (eval h f (calculateSafeOrderSize cfg symbol .buy) w).1 = .ok (some q) ↔
      cfg.minOrderSize ≤ buyAmount cfg b ∧ q = floorTo (symbolPrecision symbol) (buyAmount cfg b / price) := by
    intro q
    rw [calculated .buy hp hpos hb, Except.ok.injEq, safeOrderSize_buy_iff hmin hpct hpct' hpos]
  rcases lt_or_ge (buyAmount cfg b) cfg.minOrderSize with hlt | hge
  · exact iff_of_true (fun q hq => absurd ((hcalc q).1 hq).1 (not_le.2 hlt)) (.inl hlt)
  · have hauth : cfg.authenticated = true := by
      by_contra hauth
      rw [Bool.not_eq_true] at hauth
      rw [getBalance_unauthenticated hauth hb] at hge
      exact absurd (hmin.trans_le hge) (not_lt.2 (buyAmount_noBalances hpct))
    have hrefused : ∀ q, Refused (eval h f (placeOrder cfg symbol .buy orderType (some q)) v).1 ↔
        orderGuard cfg .buy q price ≠ none := fun q => refused_iff_guard .buy hauth hv
    simp only [hcalc, hge, true_and, forall_eq, hrefused, not_not, not_lt.2 hge, false_or]
    exact orderGuard_floor_iff hmin hpct hpct' hmax hpos

end Limits

theorem buy_passes_default :
    (∀ q, (eval (quoted 30000 10) (fun _ => ()) (calculateSafeOrderSize defaultConfig "BTCUSDT" .buy) ()).1 =
        .ok (some q) →
      ¬ Refused (eval (quoted 30000 10) (fun _ => ())
        (placeOrder defaultConfig "BTCUSDT" .buy "Market" (some q)) ()).1) ↔
      buyAmount defaultConfig (wallet 10) < 5 ∨ Orderable defaultConfig "BTCUSDT" 30000 (wallet 10) :=
  buy_passes_iff (by decide +kernel) (by decide +kernel) (by decide +kernel) (by decide +kernel) (by decide +kernel)
    rfl rfl rfl

/-- With 6.25 USDT the amount to spend is the minimum of 5, and the quantity floored from
it is worth 4.98. -/
theorem smallest_buy_refused :
    (eval (quoted 30000 (25 / 4)) (fun _ => ()) (calculateSafeOrderSize defaultConfig "BTCUSDT" .buy) ()).1 =
        .ok (some (166 / 1000000)) ∧
      Refused (eval (quoted 30000 (25 / 4)) (fun _ => ())
        (placeOrder defaultConfig "BTCUSDT" .buy "Market" (some (166 / 1000000))) ()).1 :=
  ⟨by decide +kernel, 249 / 50, 5, .inr (by decide +kernel)⟩

end Autr.Infra.OrderSize
