import Autr.Collection.PublishedTicks

namespace Autr.Collection.StoredFeatures

open Async Collector FeatureBars Infra.QuantStore Infra.QuantTables PublishedTicks Store

variable {S : Config} {db : QuantDb} {x : Pool}

/-- The bar is made of a candle with a property of keys and values, and its columns agree. -/
structure MadeOf (S : Config) (P : CandleKey → Ohlcv → Prop) (bar : FeatureBar) : Prop where
  candle : ∃ values, P bar.key values ∧ bar.features.close = values.close
  consistent : Consistent S.py.log bar.features

def Filled (S : Config) (db : QuantDb) (P : CandleKey → Ohlcv → Prop) (x : Pool) : Prop :=
  ∀ bar ∈ x.world.db.featureBar.rows, bar ∈ db.featureBar.rows ∨ MadeOf S P bar

theorem MadeOf.mono {P P' : CandleKey → Ohlcv → Prop} {bar : FeatureBar} (h : MadeOf S P bar)
    (hkeep : ∀ key values, P key values → P' key values) : MadeOf S P' bar := by
  obtain ⟨⟨values, hP, hclose⟩, hconsistent⟩ := h
  exact ⟨⟨values, hkeep _ _ hP, hclose⟩, hconsistent⟩

theorem madeOf_featureBars {P : CandleKey → Ohlcv → Prop} {symbol timeframe : String} {rows : List (ℤ × Ohlcv)}
    (hrows : ∀ row ∈ rows, P ⟨symbol, "spot", timeframe, row.1⟩ row.2) {bar : FeatureBar}
    (hbar : bar ∈ featureBars S.py symbol timeframe rows) : MadeOf S P bar := by
  obtain ⟨r, hr, rfl⟩ := List.mem_map.1 hbar
  obtain ⟨⟨candle, hcandle, hts, hclose⟩, hconsistent⟩ := mem_computeFeatures hr
  have hP := hrows candle ((List.mem_insertionSort _).1 hcandle)
  rw [← hts] at hP
  exact ⟨⟨candle.2, hP, hclose⟩, hconsistent⟩

theorem filled_step {P P' : CandleKey → Ohlcv → Prop} (hd : Disciplined (hands S.py) x) (hx : Carried S P x)
    (h : Filled S db P x) (hkeep : ∀ key values, P key values → P' key values) (i : Task) (c : Env) :
    Filled S db P' (step (handler S.backend) x (i, c)) := by
  have hold : Filled S db P' x := fun bar hbar => (h bar hbar).imp_right (fun h => h.mono hkeep)
  rcases step_cases (handler S.backend) x i c with ⟨_, hs⟩ | ⟨op, k, hp, hs⟩
  · rw [hs]
    exact hold
  rw [hs]
  have heffect := exec_effect S.backend op c x.world
  intro bar hbar
  rw [handler_exec] at hbar
  generalize (exec S.backend op c x.world).2 = w' at heffect hbar
  cases heffect with
  | inserted rows hop =>
      subst hop
      rcases (batch_featureBar S.backend rows x.world.db).origin bar hbar with hbar | hbar
      · exact hold bar hbar
      · cases rows with
        | featureBar bars =>
            obtain ⟨symbol, timeframe, rows, hheld, rfl⟩ := hd.allows hp
            exact .inr ((madeOf_featureBars (hx.fetched i symbol "spot" timeframe rows hheld) hbar).mono hkeep)
        | _ => cases hbar
  | _ => exact hold bar hbar

/-- Every bar was there before, or it is made of a candle that the store has and the exchange
has answered, which on Postgres is the stored one. -/
structure Sound (S : Config) (db : QuantDb) (x : Pool) : Prop where
  seen : Filled S db (Seen S db x) x
  exact : S.backend = .postgres → Filled S db (Exact x) x

theorem sound_step (hx : Inv S db x) (h : Sound S db x) (i : Task) (c : Env) :
    Sound S db (step (handler S.backend) x (i, c)) where
  seen := filled_step hx.traced.disciplined hx.seen h.seen (fun _ _ h => h.step i c) i c
  exact hbackend := filled_step hx.traced.disciplined (hx.exact hbackend) (h.exact hbackend)
    (fun _ _ h => h.step hbackend i c) i c

/-- Whatever the threads do to each other's candles, in no state does a feature row lack its
candle, disagree with itself or have a score beyond the bound. -/
theorem featureBars_sound (S : Config) (db : QuantDb) (ls : List (Task × Env)) : Sound S db (S.runs db ls) := by
  have hall : Inv S db (S.runs db ls) ∧ Sound S db (S.runs db ls) := by
    refine run_invariant (fun x (l : Task × Env) (h : Inv S db x ∧ Sound S db x) => ?_)
      ⟨inv_runs S db [], fun _ h => .inl h, fun _ _ h => .inl h⟩ ls
    exact ⟨inv_step h.1 l.1 l.2, sound_step h.1 h.2 l.1 l.2⟩
  exact hall.2

end Autr.Collection.StoredFeatures
