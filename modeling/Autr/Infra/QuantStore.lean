import Autr.Store.Keyed
import Autr.Text
import Mathlib.Data.Rat.Defs

namespace Autr.Infra.QuantStore

open Autr.Store

structure CandleKey where
  symbol : String
  marketType : String
  timeframe : String
  ts : ℤ
  deriving DecidableEq

structure Ohlcv where
  «open» : ℚ
  high : ℚ
  low : ℚ
  close : ℚ
  volume : ℚ
  deriving DecidableEq

/-- A row of `raw_ohlcv`, whose primary key is the whole of `key`. -/
structure Candle where
  key : CandleKey
  values : Ohlcv
  turnover : Option ℚ

structure Kline where
  ts : ℤ
  values : Ohlcv
  turnover : Option ℚ

structure Poll where
  symbol : String
  timeframe : String
  retCode : ℤ
  klines : List Kline

def Poll.rows (p : Poll) : List Candle :=
  if p.retCode ≠ 0 then []
  else p.klines.map (fun r => ⟨⟨p.symbol, "spot", p.timeframe, r.ts⟩, r.values, r.turnover⟩)

/-- The lines of the statement `_collect_ohlcv` hands to either store. -/
def collectOhlcvLines : List (List Char) :=
  ["\n                INSERT OR REPLACE INTO raw_ohlcv".toList,
   "\n                (symbol, market_type, timeframe, ts, open, high, low, close, volume, turnover)".toList,
   "\n                VALUES (:symbol, :market_type, :timeframe, :ts, :open, :high, :low, :close, :volume, :turnover)".toList,
   "\n                ".toList]

def collectOhlcvSql : List Char := collectOhlcvLines.flatten

def isWord (c : Char) : Bool := c.isAlphanum || c = '_'

/-- `re.sub(r":(\w+)", r"%(\1)s", sql)`. The flag tells whether the scan is inside a name. -/
def subNamed : Bool → List Char → List Char
  | true, [] => ")s".toList
  | false, [] => []
  | inName, c :: cs =>
      if inName && isWord c then c :: subNamed true cs
      else
        let opened := c = ':' && cs.head?.any isWord
        let closing := if inName then ")s".toList else []
        if opened then closing ++ "%(".toList ++ subNamed true cs else closing ++ c :: subNamed false cs

/-- The text `QuantPostgresStore.insert_many` sends in place of the one it is given. -/
def pgSql (sql : List Char) : List Char :=
  let s := subNamed false (Text.strip sql)
  let s := Text.replaceFrom "INSERT OR REPLACE INTO".toList "INSERT INTO".toList 0 s
  if Text.contains "ON CONFLICT".toList (Text.upper s) then s
  else (Text.stripRight s).reverse.dropWhile (· = ';') |>.reverse |> (· ++ " ON CONFLICT DO NOTHING".toList)

inductive OnConflict
  | replace
  | doNothing
  | abort
  deriving DecidableEq

/-- The two conflict clauses the stores rely on; an insert without one fails. -/
def onConflict (sql : List Char) : OnConflict :=
  if Text.contains "INSERT OR REPLACE INTO".toList sql then .replace
  else if Text.contains "ON CONFLICT DO NOTHING".toList sql then .doNothing
  else .abort

abbrev RawOhlcv := Table Candle.key

def insertRow : OnConflict → RawOhlcv → Candle → Option RawOhlcv
  | .replace, T, r => some (T.replace r)
  | .doNothing, T, r => some (T.keep r)
  | .abort, T, r => T.insert r

/-- A failing statement undoes the whole batch. -/
def executeMany (sql : List Char) (rows : List Candle) (T : RawOhlcv) : RawOhlcv :=
  (rows.foldlM (insertRow (onConflict sql)) T).getD T

namespace QuantSQLiteStore

def insertMany (sql : List Char) (rows : List Candle) (T : RawOhlcv) : RawOhlcv :=
  if rows.isEmpty then T else executeMany sql rows T

end QuantSQLiteStore

namespace QuantPostgresStore

def insertMany (sql : List Char) (rows : List Candle) (T : RawOhlcv) : RawOhlcv :=
  if rows.isEmpty then T else executeMany (pgSql sql) rows T

end QuantPostgresStore

/-- The query is the same text in both stores. -/
def fetchOhlcv (T : RawOhlcv) (symbol marketType timeframe : String) (limit : ℕ) : List (ℤ × Ohlcv) :=
  (newest (fun r => r.key.ts) limit (T.rows.filter (fun r => r.key.symbol = symbol ∧
    r.key.marketType = marketType ∧ r.key.timeframe = timeframe))).map (fun r => (r.key.ts, r.values))

def collect (insertMany : List Char → List Candle → RawOhlcv → RawOhlcv) (polls : List Poll) : RawOhlcv :=
  polls.foldl (fun T p => insertMany collectOhlcvSql p.rows T) Table.empty

def written (polls : List Poll) : List Candle := polls.flatMap Poll.rows

theorem onConflict_collect : onConflict collectOhlcvSql = .replace := by
  rw [collectOhlcvSql, collectOhlcvLines]
  repeat rw [String.toList_ofList]
  decide +kernel

/-- The rewriting turns the overwriting insert into one that keeps the old row. -/
theorem onConflict_pgSql_collect : onConflict (pgSql collectOhlcvSql) = .doNothing := by
  rw [collectOhlcvSql, collectOhlcvLines]
  repeat rw [String.toList_ofList]
  decide +kernel

example : subNamed false "VALUES (:ts, :open)".toList = "VALUES (%(ts)s, %(open)s)".toList := by decide

theorem foldlM_some (f : RawOhlcv → Candle → RawOhlcv) (rows : List Candle) (T : RawOhlcv) :
    rows.foldlM (fun T r => some (f T r)) T = some (rows.foldl f T) := by
  induction rows generalizing T with
  | nil => rfl
  | cons r rows ih => exact ih (f T r)

theorem sqlite_insertMany (rows : List Candle) (T : RawOhlcv) :
    QuantSQLiteStore.insertMany collectOhlcvSql rows T = rows.foldl Table.replace T := by
  unfold QuantSQLiteStore.insertMany
  split
  · next h => rw [List.isEmpty_iff.1 h]; rfl
  · rw [executeMany, onConflict_collect]
    exact congrArg (Option.getD · T) (foldlM_some Table.replace rows T)

theorem postgres_insertMany (rows : List Candle) (T : RawOhlcv) :
    QuantPostgresStore.insertMany collectOhlcvSql rows T = rows.foldl Table.keep T := by
  unfold QuantPostgresStore.insertMany
  split
  · next h => rw [List.isEmpty_iff.1 h]; rfl
  · rw [executeMany, onConflict_pgSql_collect]
    exact congrArg (Option.getD · T) (foldlM_some Table.keep rows T)

theorem rows_foldl_replace (rows : List Candle) (T : RawOhlcv) :
    (rows.foldl Table.replace T).rows = rows.foldl (replaceRow Candle.key) T.rows := by
  induction rows generalizing T with
  | nil => rfl
  | cons r rows ih => exact ih (T.replace r)

theorem rows_foldl_keep (rows : List Candle) (T : RawOhlcv) :
    (rows.foldl Table.keep T).rows = rows.foldl (keepRow Candle.key) T.rows := by
  induction rows generalizing T with
  | nil => rfl
  | cons r rows ih => exact ih (T.keep r)

theorem foldl_flatMap_eq (f : RawOhlcv → Candle → RawOhlcv) (polls : List Poll) (T : RawOhlcv) :
    polls.foldl (fun T p => p.rows.foldl f T) T = (written polls).foldl f T := by
  rw [written, List.foldl_flatMap]

/-- The overwriting store holds the last write under each key. -/
theorem sqlite_lookup (polls : List Poll) (k : CandleKey) :
    lookup Candle.key k (collect QuantSQLiteStore.insertMany polls).rows = lastOf Candle.key k (written polls) := by
  simp only [collect, sqlite_insertMany]
  rw [foldl_flatMap_eq, rows_foldl_replace, lookup_foldl_replaceRow]
  simp [Table.empty, lookup]

theorem postgres_lookup (polls : List Poll) (k : CandleKey) :
    lookup Candle.key k (collect QuantPostgresStore.insertMany polls).rows = lookup Candle.key k (written polls) := by
  simp only [collect, postgres_insertMany]
  rw [foldl_flatMap_eq, rows_foldl_keep, lookup_foldl_keepRow]
  simp [Table.empty, lookup]

end Autr.Infra.QuantStore
