import Netwatch.Buckets.Width
import Netwatch.Db.Windows

/-!
# The volume chart

`timeseries` of `db.rs` counts the queries of a window in buckets of one width, and the handler
of `api.rs` chooses the width so that there are about 120 of them.

## Main definitions

- `timeseries` — the buckets, oldest first
- `CountedOnce` — every query of the window is in one bucket, and no other one is

## Main results

- `length_timeseries_le` — how many buckets the handler shows
- `timeseries_countedOnce` — every log is counted once, in as many buckets at most
-/

namespace Netwatch

open RustStd

namespace Db

structure Bucket where
  ts : ℤ
  allowed : ℕ
  blocked : ℕ
  deriving DecidableEq

/-- The sums over one group. -/
def bucketOf (g : ℤ × List QueryRecord) : Bucket where
  ts := g.1
  allowed := g.2.countP fun q => q.status ≠ "blocked".toList
  blocked := g.2.countP fun q => q.status = "blocked".toList

/-- The integer division of SQLite truncates. -/
def timeseries (t : Tables) (now hours bucketSecs : Int64) : List Bucket :=
  let bucket := (max bucketSecs 60).toInt
  let since := (sinceOf now hours).toInt
  let rows := t.queries.rows.filter fun q => since ≤ q.ts
  let groups := Sql.groupBy (fun q => q.ts.tdiv bucket * bucket) rows
  (groups.insertionSort fun g g' => g.1 ≤ g'.1).map bucketOf

/-- The query is in the bucket that begins at `ts`. -/
def InBucket (width ts : ℤ) (q : QueryRecord) : Prop := ts ≤ q.ts ∧ q.ts < ts + width

instance (width ts : ℤ) (q : QueryRecord) : Decidable (InBucket width ts q) :=
  inferInstanceAs (Decidable (_ ∧ _))

/-- The buckets count the queries of the log since `since`, each once. -/
structure CountedOnce (log : List QueryRecord) (since width : ℤ) (buckets : List Bucket) :
    Prop where
  ordered : buckets.Pairwise fun b b' => b.ts < b'.ts
  aligned : ∀ b ∈ buckets, width ∣ b.ts
  found : ∀ q ∈ log, since ≤ q.ts → ∃! b, b ∈ buckets ∧ InBucket width b.ts q
  allowed : ∀ b ∈ buckets, b.allowed = log.countP fun q =>
    since ≤ q.ts ∧ InBucket width b.ts q ∧ q.status ≠ "blocked".toList
  blocked : ∀ b ∈ buckets, b.blocked = log.countP fun q =>
    since ≤ q.ts ∧ InBucket width b.ts q ∧ q.status = "blocked".toList
  total : (buckets.map fun b => b.allowed + b.blocked).sum = log.countP fun q => since ≤ q.ts

/-! ### Counting in buckets -/

/-- Where the buckets of some rows begin. -/
def starts (width : ℤ) (rows : List QueryRecord) : List ℤ :=
  (rows.map fun q => Buckets.start width q.ts).dedup.insertionSort (· ≤ ·)

def bucketed (width : ℤ) (rows : List QueryRecord) : List Bucket :=
  (starts width rows).map fun b =>
    bucketOf (b, rows.filter fun q => Buckets.start width q.ts = b)

section Bucketed

variable {width : ℤ} {rows : List QueryRecord}

theorem mem_starts {b : ℤ} :
    b ∈ starts width rows ↔ ∃ q ∈ rows, Buckets.start width q.ts = b := by
  rw [starts, List.mem_insertionSort, List.mem_dedup, List.mem_map]

theorem nodup_starts (width : ℤ) (rows : List QueryRecord) : (starts width rows).Nodup :=
  (List.perm_insertionSort _ _).nodup_iff.mpr (List.nodup_dedup _)

theorem pairwise_starts (width : ℤ) (rows : List QueryRecord) :
    (starts width rows).Pairwise (· < ·) := by
  have hle : (starts width rows).Pairwise (· ≤ ·) := List.pairwise_insertionSort _ _
  exact hle.imp₂ (fun _ _ hle hne => lt_of_le_of_ne hle hne) (nodup_starts width rows)

theorem length_bucketed (width : ℤ) (rows : List QueryRecord) :
    (bucketed width rows).length = (starts width rows).length := List.length_map _

/-- The statement groups by the beginning of the bucket. -/
theorem timeseries_eq {t : Tables} (hts : ∀ q ∈ t.queries.rows, 0 ≤ q.ts)
    (now hours bucketSecs : Int64) :
    timeseries t now hours bucketSecs =
      bucketed (max bucketSecs.toInt 60)
        (t.queries.rows.filter fun q => (sinceOf now hours).toInt ≤ q.ts) := by
  have hwidth : (max bucketSecs 60).toInt = max bucketSecs.toInt 60 := toInt_max bucketSecs 60
  have hstart : ∀ q ∈ t.queries.rows.filter fun q => (sinceOf now hours).toInt ≤ q.ts,
      q.ts.tdiv (max bucketSecs.toInt 60) * max bucketSecs.toInt 60 =
        Buckets.start (max bucketSecs.toInt 60) q.ts := by
    intro q hq
    rw [Buckets.start, Int.tdiv_eq_ediv_of_nonneg (hts q (List.mem_of_mem_filter hq))]
  rw [timeseries]
  simp only [hwidth]
  rw [Sql.groupBy_congr hstart, Sql.insertionSort_groupBy, List.map_map]
  rfl

/-- A bucket begins at a multiple of the width and sums the rows that begin there. -/
theorem bucket_of_mem {b : Bucket} (hb : b ∈ bucketed width rows) :
    width ∣ b.ts ∧
      b = bucketOf (b.ts, rows.filter fun q => Buckets.start width q.ts = b.ts) := by
  obtain ⟨k, hk, rfl⟩ := List.mem_map.mp hb
  obtain ⟨q, -, rfl⟩ := mem_starts.mp hk
  exact ⟨Buckets.dvd_start width q.ts, rfl⟩

/-- Every row of a group is in one of the two sums. -/
theorem allowed_add_blocked (g : ℤ × List QueryRecord) :
    (bucketOf g).allowed + (bucketOf g).blocked = g.2.length := by
  have hsplit := List.length_eq_countP_add_countP
    (fun q : QueryRecord => decide (q.status = "blocked".toList)) (l := g.2)
  simp only [decide_eq_true_eq] at hsplit
  rw [hsplit, Nat.add_comm]
  rfl

theorem total_bucketed (width : ℤ) (rows : List QueryRecord) :
    ((bucketed width rows).map fun b => b.allowed + b.blocked).sum = rows.length := by
  have hgroups : (bucketed width rows).map (fun b => b.allowed + b.blocked) =
      ((Sql.groupBy (fun q => Buckets.start width q.ts) rows).insertionSort
        fun g g' => g.1 ≤ g'.1).map fun g => g.2.length := by
    rw [Sql.insertionSort_groupBy, bucketed, starts, List.map_map, List.map_map]
    congr 1
    funext b
    exact allowed_add_blocked _
  rw [hgroups, ← Sql.sum_length_groupBy (fun q => Buckets.start width q.ts) rows]
  exact ((List.perm_insertionSort _ _).map _).sum_eq

/-- A sum over the rows of a bucket, as a count over the log. -/
theorem countP_bucket (hwidth : 0 < width) {b : ℤ} (hb : width ∣ b) (log : List QueryRecord)
    (since : ℤ) (p : QueryRecord → Prop) [DecidablePred p] :
    ((log.filter fun q => since ≤ q.ts).filter fun q => Buckets.start width q.ts = b).countP
        (fun q => p q) =
      log.countP fun q => since ≤ q.ts ∧ InBucket width b q ∧ p q := by
  rw [List.filter_filter, List.countP_filter]
  congr 1
  funext q
  rw [← Bool.decide_and, ← Bool.decide_and]
  congr 1
  rw [Buckets.start_eq_iff hwidth hb, InBucket]
  exact propext ⟨fun ⟨hp, hin, hs⟩ => ⟨hs, hin, hp⟩, fun ⟨hs, hin, hp⟩ => ⟨hp, hin, hs⟩⟩

theorem countedOnce_bucketed (hwidth : 0 < width) (log : List QueryRecord) (since : ℤ) :
    CountedOnce log since width (bucketed width (log.filter fun q => since ≤ q.ts)) where
  ordered := List.pairwise_map.mpr (pairwise_starts width _)
  aligned b hb := (bucket_of_mem hb).1
  found := by
    intro q hq hsince
    have hin : q ∈ log.filter fun q => since ≤ q.ts :=
      List.mem_filter.mpr ⟨hq, decide_eq_true hsince⟩
    refine ⟨_, ⟨List.mem_map_of_mem (mem_starts.mpr ⟨q, hin, rfl⟩),
      Buckets.start_mem hwidth q.ts⟩, ?_⟩
    rintro b ⟨hb, hbucket⟩
    obtain ⟨hdvd, hsums⟩ := bucket_of_mem hb
    rw [hsums, ← (Buckets.start_eq_iff hwidth hdvd).mpr hbucket]
  allowed := by
    intro b hb
    obtain ⟨hdvd, hsums⟩ := bucket_of_mem hb
    exact (congrArg Bucket.allowed hsums).trans (countP_bucket hwidth hdvd log since _)
  blocked := by
    intro b hb
    obtain ⟨hdvd, hsums⟩ := bucket_of_mem hb
    exact (congrArg Bucket.blocked hsums).trans (countP_bucket hwidth hdvd log since _)
  total := by rw [total_bucketed, List.countP_eq_length_filter]

end Bucketed

/-- In the range of the parameter the window is computed without overflow. -/
theorem toInt_sinceOf_of_clamped {now hours : Int64} (hnow : 0 ≤ now.toInt) (hlow : 1 ≤ hours)
    (hhigh : hours ≤ 720) : (sinceOf now hours).toInt = now.toInt - hours.toInt * 3600 := by
  have hone : (1 : Int64).toInt = 1 := rfl
  have hmonth : (720 : Int64).toInt = 720 := rfl
  rw [Int64.le_iff_toInt_le] at hlow hhigh
  have hmax : max hours.toInt 1 = hours.toInt := by omega
  have hspan : FitsI64 ((max hours 1).toInt * 3600) := by
    rw [toInt_max_one]
    constructor <;> omega
  have hsafe : Safe now hours := by
    refine ⟨hspan, ?_⟩
    rw [toInt_span hspan]
    have hlt := Int64.toInt_lt now
    constructor <;> omega
  rw [toInt_sinceOf hsafe, windowStart, hmax]

end Db

namespace Api

open Db

/-- `p.hours.unwrap_or(24).clamp(1, 24 * 30)` -/
def RangeParams.clamped (p : RangeParams) : Int64 := min (max p.window 1) 720

/-- Roughly 120 points regardless of the window. -/
def bucketFor (hours : Int64) : Int64 := max (hours * 3600 / 120) 60

def timeseries (t : Tables) (now : Int64) (p : RangeParams) : List Bucket :=
  Db.timeseries t now p.clamped (bucketFor p.clamped)

theorem toInt_clamped (p : RangeParams) :
    p.clamped.toInt = min (max p.window.toInt 1) 720 := by
  rw [RangeParams.clamped, toInt_min, toInt_max_one]
  rfl

/-- Half a minute for every hour. -/
theorem toInt_bucketFor {hours : Int64} (hlow : 1 ≤ hours.toInt) (hhigh : hours.toInt ≤ 720) :
    (bucketFor hours).toInt = max (30 * hours.toInt) 60 := by
  have hhour : (3600 : Int64).toInt = 3600 := rfl
  have hpoints : (120 : Int64).toInt = 120 := rfl
  have hspan : (hours * 3600).toInt = hours.toInt * 3600 := by
    rw [Int64.toInt_mul, hhour, bmod_of_fits ⟨by omega, by omega⟩]
  have hdiv : (hours * 3600 / 120).toInt = 30 * hours.toInt := by
    rw [Int64.toInt_div_of_ne_right _ _ (by decide), hspan, hpoints,
      Int.tdiv_eq_ediv_of_nonneg (by omega)]
    omega
  rw [bucketFor, toInt_max, hdiv]
  rfl

/-- The window of the handler is at most 120 buckets long, so that it meets one more. -/
theorem length_timeseries_le {t : Tables} (hts : ∀ q ∈ t.queries.rows, 0 ≤ q.ts) {now : Int64}
    (hnow : 0 ≤ now.toInt) (hpast : ∀ q ∈ t.queries.rows, q.ts ≤ now.toInt) (p : RangeParams) :
    (timeseries t now p).length ≤ 121 := by
  have hclamped := toInt_clamped p
  have hlow : 1 ≤ p.clamped.toInt := by omega
  have hhigh : p.clamped.toInt ≤ 720 := by omega
  have hbucket := toInt_bucketFor hlow hhigh
  have hsince : (sinceOf now p.clamped).toInt = now.toInt - p.clamped.toInt * 3600 :=
    toInt_sinceOf_of_clamped hnow (Int64.le_iff_toInt_le.mpr hlow)
      (Int64.le_iff_toInt_le.mpr hhigh)
  have hspan : now.toInt - (now.toInt - p.clamped.toInt * 3600) ≤
      (120 : ℕ) * max (bucketFor p.clamped).toInt 60 := by
    omega
  rw [timeseries, timeseries_eq hts, length_bucketed]
  refine Buckets.length_le_of_span (by omega) (nodup_starts _ _) hspan ?_
  intro b hb
  obtain ⟨q, hq, rfl⟩ := mem_starts.mp hb
  obtain ⟨hmem, hwindow⟩ := List.mem_filter.mp hq
  rw [decide_eq_true_eq, hsince] at hwindow
  exact ⟨q.ts, hwindow, hpast q hmem, rfl⟩

theorem timeseries_countedOnce {t : Tables} (hts : ∀ q ∈ t.queries.rows, 0 ≤ q.ts) {now : Int64}
    (hnow : 0 ≤ now.toInt) :
    (∀ hours bucketSecs : Int64, 1 ≤ hours → hours ≤ 720 →
      CountedOnce t.queries.rows (now.toInt - hours.toInt * 3600) (max bucketSecs.toInt 60)
        (Db.timeseries t now hours bucketSecs)) ∧
      ((∀ q ∈ t.queries.rows, q.ts ≤ now.toInt) → ∀ p, (timeseries t now p).length ≤ 121) := by
  refine ⟨fun hours bucketSecs hlow hhigh => ?_, length_timeseries_le hts hnow⟩
  rw [timeseries_eq hts, toInt_sinceOf_of_clamped hnow hlow hhigh]
  exact countedOnce_bucketed (by omega) t.queries.rows _

def asked (ts : ℤ) (status : Dns.QueryStatus) : WriteOp :=
  .query
    { ts, clientIp := "192.168.1.10".toList, domain := "example.com".toList, qtype := "A".toList
      status, elapsedMs := none, answer := none, blocklist := none }

/-- Two queries of one minute, one of the day before and one at the end of the window. -/
def chartLog : Tables :=
  Tables.fresh.executeAll
    [asked 1699990000 .blocked, asked 1699990030 .cached, asked 1699900000 .cached,
      asked 1700000000 .forwarded]

theorem timeseries_countedOnce_chartLog :
    CountedOnce chartLog.queries.rows 1699913600 720 (Db.timeseries chartLog 1700000000 24 720) ∧
      (timeseries chartLog 1700000000 {}).length ≤ 121 :=
  have h := @timeseries_countedOnce chartLog (by decide) 1700000000 (by decide)
  ⟨h.1 24 720 (by decide) (by decide), h.2 (by decide) {}⟩

example : timeseries chartLog 1700000000 {} = [⟨1699989840, 1, 1⟩, ⟨1699999920, 1, 0⟩] := by
  decide

end Api

end Netwatch
