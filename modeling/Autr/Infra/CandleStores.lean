import Autr.Infra.QuantStore

namespace Autr.Infra.CandleStores

open Autr.Store QuantStore

section Listing

variable (symbol marketType timeframe : String)

def stamps (rows : List Candle) : Finset ℤ :=
  ((rows.filter (fun r => r.key.symbol = symbol ∧ r.key.marketType = marketType ∧
    r.key.timeframe = timeframe)).map (fun r => r.key.ts)).toFinset

/-- The newest `limit` timestamps, each with the values found under its key. -/
def listing (limit : ℕ) (ts : Finset ℤ) (look : CandleKey → Option Candle) : List (ℤ × Ohlcv) :=
  ((ts.sort (· ≥ ·)).take limit).filterMap (fun t =>
    (look ⟨symbol, marketType, timeframe, t⟩).map (fun r => (t, r.values)))

theorem mem_stamps {rows : List Candle} {t : ℤ} :
    t ∈ stamps symbol marketType timeframe rows ↔
      lookup Candle.key ⟨symbol, marketType, timeframe, t⟩ rows ≠ none := by
  simp only [stamps, List.mem_toFinset, List.mem_map, List.mem_filter, decide_eq_true_eq, ne_eq,
    lookup_eq_none, not_forall, not_not]
  constructor
  · rintro ⟨r, ⟨hr, hs, hm, htf⟩, ht⟩
    refine ⟨r, hr, ?_⟩
    rw [← hs, ← hm, ← htf, ← ht]
  · rintro ⟨r, hr, hk⟩
    exact ⟨r, ⟨hr, by simp [hk]⟩, by simp [hk]⟩

theorem stamps_congr {rows rows' : List Candle}
    (h : ∀ k, lookup Candle.key k rows = none ↔ lookup Candle.key k rows' = none) :
    stamps symbol marketType timeframe rows = stamps symbol marketType timeframe rows' := by
  ext t
  rw [mem_stamps, mem_stamps, ne_eq, ne_eq, h]

theorem fetchOhlcv_eq_listing (T : RawOhlcv) (limit : ℕ) :
    fetchOhlcv T symbol marketType timeframe limit =
      listing symbol marketType timeframe limit (stamps symbol marketType timeframe T.rows)
        (fun k => lookup Candle.key k T.rows) := by
  set rows := T.rows.filter (fun r => r.key.symbol = symbol ∧ r.key.marketType = marketType ∧
    r.key.timeframe = timeframe) with hrows
  have hkey : ∀ r ∈ rows, r.key = ⟨symbol, marketType, timeframe, r.key.ts⟩ := by
    intro r hr
    obtain ⟨-, hp⟩ := List.mem_filter.1 hr
    obtain ⟨hs, hm, ht⟩ := of_decide_eq_true hp
    rw [← hs, ← hm, ← ht]
  have hnodup : (rows.map (fun r => r.key.ts)).Nodup := by
    have hn : (rows.map Candle.key).Nodup := (List.Sublist.map _ List.filter_sublist).nodup T.nodup
    refine List.Nodup.map_on (fun x hx y hy hxy => ?_) (List.Nodup.of_map _ hn)
    refine List.inj_on_of_nodup_map hn hx hy ?_
    rw [hkey x hx, hkey y hy, hxy]
  rw [fetchOhlcv, ← hrows, newest_eq_filterMap (fun r : Candle => r.key.ts) limit rows hnodup
    (fun t => lookup Candle.key ⟨symbol, marketType, timeframe, t⟩ T.rows), List.map_filterMap]
  · refine List.filterMap_congr (fun t _ => ?_)
    refine Option.map_congr (fun r hr => ?_)
    rw [(mem_of_lookup hr).2]
  · intro r hr
    rw [← hkey r hr]
    exact lookup_eq_some_of_mem T.nodup (List.mem_filter.1 hr).1

theorem listing_congr {limit : ℕ} {ts : Finset ℤ} {look look' : CandleKey → Option Candle}
    (h : ∀ k, (look k).map Candle.values = (look' k).map Candle.values) :
    listing symbol marketType timeframe limit ts look = listing symbol marketType timeframe limit ts look' := by
  refine List.filterMap_congr (fun t _ => ?_)
  have ht := congrArg (Option.map (Prod.mk t)) (h ⟨symbol, marketType, timeframe, t⟩)
  rw [Option.map_map, Option.map_map] at ht
  exact ht

theorem mem_listing {ts : Finset ℤ} {look : CandleKey → Option Candle} {t : ℤ} {v : Ohlcv} (ht : t ∈ ts) :
    (t, v) ∈ listing symbol marketType timeframe ts.card ts look ↔
      (look ⟨symbol, marketType, timeframe, t⟩).map Candle.values = some v := by
  rw [listing, List.take_of_length_le (by simp), List.mem_filterMap]
  constructor
  · rintro ⟨t', -, h⟩
    obtain ⟨r, hr, he⟩ := Option.map_eq_some_iff.1 h
    cases he
    simp [hr]
  · intro h
    obtain ⟨r, hr, he⟩ := Option.map_eq_some_iff.1 h
    exact ⟨t, (Finset.mem_sort _).2 ht, by simp [hr, he]⟩

end Listing

def firstValues (polls : List Poll) (k : CandleKey) : Option Ohlcv :=
  (lookup Candle.key k (written polls)).map Candle.values

def lastValues (polls : List Poll) (k : CandleKey) : Option Ohlcv :=
  (lastOf Candle.key k (written polls)).map Candle.values

/-- The newest keys ever written for a series, each with the values written last. -/
def newestWritten (polls : List Poll) (symbol marketType timeframe : String) (limit : ℕ) :
    List (ℤ × Ohlcv) :=
  listing symbol marketType timeframe limit (stamps symbol marketType timeframe (written polls))
    (fun k => lastOf Candle.key k (written polls))

theorem fetchOhlcv_sqlite (polls : List Poll) (symbol marketType timeframe : String) (limit : ℕ) :
    fetchOhlcv (collect QuantSQLiteStore.insertMany polls) symbol marketType timeframe limit =
      newestWritten polls symbol marketType timeframe limit := by
  rw [fetchOhlcv_eq_listing, newestWritten, stamps_congr symbol marketType timeframe (fun k => ?_)]
  · exact congrArg _ (funext (sqlite_lookup polls))
  · rw [sqlite_lookup, lastOf_eq_none]

theorem fetchOhlcv_postgres (polls : List Poll) (symbol marketType timeframe : String) (limit : ℕ) :
    fetchOhlcv (collect QuantPostgresStore.insertMany polls) symbol marketType timeframe limit =
      listing symbol marketType timeframe limit (stamps symbol marketType timeframe (written polls))
        (fun k => lookup Candle.key k (written polls)) := by
  rw [fetchOhlcv_eq_listing, stamps_congr symbol marketType timeframe (fun k => ?_)]
  · exact congrArg _ (funext (postgres_lookup polls))
  · rw [postgres_lookup]

/-- Both stores answer every query with the newest keys and the values written last. -/
def StoresAgree (polls : List Poll) : Prop :=
  ∀ symbol marketType timeframe limit,
    fetchOhlcv (collect QuantPostgresStore.insertMany polls) symbol marketType timeframe limit =
      fetchOhlcv (collect QuantSQLiteStore.insertMany polls) symbol marketType timeframe limit ∧
    fetchOhlcv (collect QuantPostgresStore.insertMany polls) symbol marketType timeframe limit =
      newestWritten polls symbol marketType timeframe limit

/-- The stores agree exactly when no candle is collected again with other values in the end. -/
theorem stores_agree_iff (polls : List Poll) :
    StoresAgree polls ↔ ∀ k, firstValues polls k = lastValues polls k := by
  constructor
  · intro h k
    obtain ⟨symbol, marketType, timeframe, t⟩ := k
    cases hf : lookup Candle.key ⟨symbol, marketType, timeframe, t⟩ (written polls) with
    | none =>
        rw [firstValues, lastValues, hf, (lastOf_eq_none _ _).2 hf]
    | some r =>
        have ht : t ∈ stamps symbol marketType timeframe (written polls) := by
          rw [mem_stamps, hf]
          exact Option.some_ne_none r
        have hq := (h symbol marketType timeframe
          (stamps symbol marketType timeframe (written polls)).card).2
        rw [fetchOhlcv_postgres] at hq
        have hm : (t, r.values) ∈ newestWritten polls symbol marketType timeframe
            (stamps symbol marketType timeframe (written polls)).card := by
          rw [← hq]
          exact (mem_listing symbol marketType timeframe ht).2 (by rw [hf]; rfl)
        rw [firstValues, hf]
        exact ((mem_listing symbol marketType timeframe ht).1 hm).symm
  · intro h symbol marketType timeframe limit
    have hp : fetchOhlcv (collect QuantPostgresStore.insertMany polls) symbol marketType timeframe limit =
        newestWritten polls symbol marketType timeframe limit := by
      rw [fetchOhlcv_postgres]
      exact listing_congr symbol marketType timeframe h
    exact ⟨hp.trans (fetchOhlcv_sqlite polls symbol marketType timeframe limit).symm, hp⟩

/-- A candle is collected while it forms and once more when it has closed. -/
def formingCandle : List Poll :=
  [⟨"BTCUSDT", "15", 0, [⟨900000, ⟨100, 101, 99, 100, 1⟩, none⟩]⟩,
   ⟨"BTCUSDT", "15", 0, [⟨900000, ⟨100, 110, 99, 108, 5⟩, none⟩]⟩]

theorem forming_candle_stays_stale : ¬ StoresAgree formingCandle := by
  intro h
  have hq := (h "BTCUSDT" "spot" "15" 1).1
  simp only [collect, sqlite_insertMany, postgres_insertMany] at hq
  exact absurd hq (by decide +kernel)

end Autr.Infra.CandleStores
