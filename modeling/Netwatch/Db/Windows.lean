import Netwatch.Db.Queries

/-!
# Report windows

`top_domains`, `top_clients` and `query_types` of `db.rs` start their window `hours` before now,
in `i64`. The handlers of `api.rs` pass the parameter on as it comes, where those of `timeseries`
and `bypass_suspects` clamp it to a month.

## Main definitions

- `windowStart`, `sinceOf` — the window start, and what the machine computes for it
- `Safe` — no operation on the way overflows
- `Route.report` — what a handler shows
- `Nested` — of two requests, the wider one counts at least the rows of the narrower one

## Main results

- `safe_iff` — the hours for which nothing overflows
- `toInt_sinceOf` — for those hours the machine computes the window start
- `nested_iff` — two requests are nested exactly if the wider one does not overflow
-/

namespace Netwatch

open RustStd

namespace Db

/-! ### The window start -/

def FitsI64 (x : ℤ) : Prop := -2 ^ 63 ≤ x ∧ x < 2 ^ 63

instance (x : ℤ) : Decidable (FitsI64 x) := inferInstanceAs (Decidable (_ ∧ _))

/-- Where the window should start. -/
def windowStart (now hours : ℤ) : ℤ := now - max hours 1 * 3600

/-- `now() - hours.max(1) * 3_600`, wrapping around as a release build does. -/
def sinceOf (now hours : Int64) : Int64 := now - max hours 1 * 3600

/-- Neither the product nor the difference overflows. -/
def Safe (now hours : Int64) : Prop :=
  FitsI64 ((max hours 1).toInt * 3600) ∧ FitsI64 (now.toInt - (max hours 1 * 3600).toInt)

instance (now hours : Int64) : Decidable (Safe now hours) := inferInstanceAs (Decidable (_ ∧ _))

theorem bmod_of_fits {x : ℤ} (h : FitsI64 x) : x.bmod (2 ^ 64) = x := by
  obtain ⟨hlow, hhigh⟩ := h
  exact Int.bmod_eq_of_le (by omega) (by omega)

theorem toInt_max (a b : Int64) : (max a b).toInt = max a.toInt b.toInt := by
  rw [show max a b = if a ≤ b then b else a from rfl]
  split
  · next h =>
    rw [Int64.le_iff_toInt_le] at h
    omega
  · next h =>
    rw [Int64.le_iff_toInt_le] at h
    omega

theorem toInt_min (a b : Int64) : (min a b).toInt = min a.toInt b.toInt := by
  rw [show min a b = if a ≤ b then a else b from rfl]
  split
  · next h =>
    rw [Int64.le_iff_toInt_le] at h
    omega
  · next h =>
    rw [Int64.le_iff_toInt_le] at h
    omega

theorem toInt_max_one (hours : Int64) : (max hours 1).toInt = max hours.toInt 1 := toInt_max hours 1

theorem toInt_span {hours : Int64} (h : FitsI64 ((max hours 1).toInt * 3600)) :
    (max hours 1 * 3600).toInt = max hours.toInt 1 * 3600 := by
  have hhour : (3600 : Int64).toInt = 3600 := rfl
  rw [Int64.toInt_mul, hhour, bmod_of_fits h, toInt_max_one]

/-- Where nothing overflows, the window starts where it should. -/
theorem toInt_sinceOf {now hours : Int64} (h : Safe now hours) :
    (sinceOf now hours).toInt = windowStart now.toInt hours.toInt := by
  rw [sinceOf, Int64.toInt_sub, bmod_of_fits h.2, toInt_span h.1, windowStart]

/-- About 292 million years. -/
def maxHours : ℤ := 2562047788015215

theorem safe_iff {now hours : Int64} (hlow : 0 ≤ now.toInt) (hhigh : now.toInt ≤ 2 ^ 40) :
    Safe now hours ↔ hours.toInt ≤ maxHours := by
  have hhours := Int64.le_toInt hours
  rw [maxHours]
  constructor
  · rintro ⟨⟨-, hspan⟩, -⟩
    rw [toInt_max_one] at hspan
    omega
  · intro h
    have hspan : FitsI64 ((max hours 1).toInt * 3600) := by
      rw [toInt_max_one]
      constructor <;> omega
    refine ⟨hspan, ?_⟩
    rw [toInt_span hspan]
    constructor <;> omega

/-! ### The reports -/

variable {t : Tables} {since since' : ℤ}

/-- The rows that the statement of `top_domains` counts. -/
def domainRows (t : Tables) (since : ℤ) (blocked : Bool) : List QueryRecord :=
  t.queries.rows.filter fun q => since ≤ q.ts ∧ (q.status = "blocked".toList ↔ blocked = true)

/-- `pick` takes the list that blocked a domain from a row of its group. -/
def topDomains (pick : Sql.Pick QueryRecord) (t : Tables) (now hours : Int64) (limit : UInt32)
    (blocked : Bool) : List Counted :=
  report QueryRecord.domain
    (fun g => if blocked then (pick.row g).bind QueryRecord.blocklist else none)
    (max 1 (min limit.toNat 200)) (domainRows t (sinceOf now hours).toInt blocked)

def topClients (pick : Sql.Pick (QueryRecord × Option DeviceRecord)) (t : Tables)
    (now hours : Int64) (limit : UInt32) : List Counted :=
  topClientsSince pick t (sinceOf now hours).toInt limit.toNat

def typeRows (t : Tables) (since : ℤ) : List QueryRecord :=
  t.queries.rows.filter fun q => since ≤ q.ts

def queryTypes (t : Tables) (now hours : Int64) : List Counted :=
  report QueryRecord.qtype (fun _ => none) 12 (typeRows t (sinceOf now hours).toInt)

theorem domainRows_sublist (h : since' ≤ since) (blocked : Bool) :
    (domainRows t since blocked).Sublist (domainRows t since' blocked) := by
  refine List.monotone_filter_right _ fun q hq => ?_
  simp only [decide_eq_true_eq] at hq ⊢
  exact ⟨h.trans hq.1, hq.2⟩

theorem clientRows_sublist (h : since' ≤ since) :
    (clientRows t since).Sublist (clientRows t since') := by
  refine List.monotone_filter_right _ fun j hj => ?_
  simp only [decide_eq_true_eq] at hj ⊢
  exact h.trans hj

theorem typeRows_sublist (h : since' ≤ since) : (typeRows t since).Sublist (typeRows t since') := by
  refine List.monotone_filter_right _ fun q hq => ?_
  simp only [decide_eq_true_eq] at hq ⊢
  exact h.trans hq

/-- A label counts no fewer rows where there are more. -/
theorem count_report_le {α : Type} {label : α → Str} {sublabel sublabel' : List α → Option Str}
    {limit limit' : ℕ} {rows rows' : List α} (hrows : rows.Sublist rows') {c c' : Counted}
    (h : c ∈ report label sublabel limit rows) (h' : c' ∈ report label sublabel' limit' rows')
    (heq : c.label = c'.label) : c.count ≤ c'.count := by
  rw [count_report h, count_report h', heq]
  exact hrows.countP_le

end Db

namespace Api

open Db

structure RangeParams where
  hours : Option Int64 := none
  limit : Option UInt32 := none

def RangeParams.window (p : RangeParams) : Int64 := p.hours.getD 24

/-- The rows from which SQLite takes the names. -/
structure Picks where
  query : Sql.Pick QueryRecord
  client : Sql.Pick (QueryRecord × Option DeviceRecord)

def topDomains (picks : Picks) (t : Tables) (now : Int64) (p : RangeParams) : List Counted :=
  Db.topDomains picks.query t now p.window (p.limit.getD 15) false

def topBlocked (picks : Picks) (t : Tables) (now : Int64) (p : RangeParams) : List Counted :=
  Db.topDomains picks.query t now p.window (p.limit.getD 15) true

def topClients (picks : Picks) (t : Tables) (now : Int64) (p : RangeParams) : List Counted :=
  Db.topClients picks.client t now p.window (p.limit.getD 15)

def queryTypes (t : Tables) (now : Int64) (p : RangeParams) : List Counted :=
  Db.queryTypes t now p.window

/-- The routes whose window is not clamped. -/
inductive Route
  | topDomains
  | topBlocked
  | topClients
  | queryTypes
  deriving DecidableEq

def Route.report (picks : Picks) (route : Route) (t : Tables) (now : Int64) (p : RangeParams) :
    List Counted :=
  match route with
  | .topDomains => Api.topDomains picks t now p
  | .topBlocked => Api.topBlocked picks t now p
  | .topClients => Api.topClients picks t now p
  | .queryTypes => Api.queryTypes t now p

/-- How many rows the statement of the route counts, over all groups. -/
def Route.counted (route : Route) (t : Tables) (now : Int64) (p : RangeParams) : ℕ :=
  let since := (sinceOf now p.window).toInt
  match route with
  | .topDomains => (domainRows t since false).length
  | .topBlocked => (domainRows t since true).length
  | .topClients => (clientRows t since).length
  | .queryTypes => (typeRows t since).length

/-- Both windows are computed without overflow, and `wide` looks at least as far back. -/
structure Nested (now : Int64) (narrow wide : RangeParams) : Prop where
  safe : Safe now narrow.window ∧ Safe now wide.window
  start_le : (sinceOf now wide.window).toInt ≤ (sinceOf now narrow.window).toInt
  counted_le : ∀ (route : Route) (t : Tables), route.counted t now narrow ≤ route.counted t now wide
  label_le : ∀ (picks picks' : Picks) (route : Route) (t : Tables),
    ∀ c ∈ route.report picks t now narrow, ∀ c' ∈ route.report picks' t now wide,
      c.label = c'.label → c.count ≤ c'.count

theorem counted_le_of_start_le {now : Int64} {narrow wide : RangeParams}
    (h : (sinceOf now wide.window).toInt ≤ (sinceOf now narrow.window).toInt) (route : Route)
    (t : Tables) : route.counted t now narrow ≤ route.counted t now wide := by
  cases route with
  | topDomains => exact (domainRows_sublist h false).length_le
  | topBlocked => exact (domainRows_sublist h true).length_le
  | topClients => exact (clientRows_sublist h).length_le
  | queryTypes => exact (typeRows_sublist h).length_le

theorem label_le_of_start_le {now : Int64} {narrow wide : RangeParams}
    (h : (sinceOf now wide.window).toInt ≤ (sinceOf now narrow.window).toInt)
    {picks picks' : Picks} (route : Route) (t : Tables) {c c' : Counted}
    (hc : c ∈ route.report picks t now narrow) (hc' : c' ∈ route.report picks' t now wide)
    (heq : c.label = c'.label) : c.count ≤ c'.count := by
  cases route with
  | topDomains =>
    rw [Route.report, topDomains, Db.topDomains] at hc hc'
    exact count_report_le (domainRows_sublist h false) hc hc' heq
  | topBlocked =>
    rw [Route.report, topBlocked, Db.topDomains] at hc hc'
    exact count_report_le (domainRows_sublist h true) hc hc' heq
  | topClients =>
    rw [Route.report, topClients, Db.topClients, topClientsSince] at hc hc'
    exact count_report_le (clientRows_sublist h) hc hc' heq
  | queryTypes =>
    rw [Route.report, queryTypes, Db.queryTypes] at hc hc'
    exact count_report_le (typeRows_sublist h) hc hc' heq

theorem nested_iff {now : Int64} {narrow wide : RangeParams} (hlow : 0 ≤ now.toInt)
    (hhigh : now.toInt ≤ 2 ^ 40) (hle : narrow.window ≤ wide.window) :
    Nested now narrow wide ↔ wide.window.toInt ≤ maxHours := by
  rw [Int64.le_iff_toInt_le] at hle
  constructor
  · intro h
    exact (safe_iff hlow hhigh).mp h.safe.2
  · intro h
    have hnarrow : Safe now narrow.window := (safe_iff hlow hhigh).mpr (hle.trans h)
    have hwide : Safe now wide.window := (safe_iff hlow hhigh).mpr h
    have hstart : (sinceOf now wide.window).toInt ≤ (sinceOf now narrow.window).toInt := by
      rw [toInt_sinceOf hnarrow, toInt_sinceOf hwide, windowStart, windowStart]
      omega
    exact ⟨⟨hnarrow, hwide⟩, hstart, counted_le_of_start_le hstart,
      fun _ _ route t _ hc _ => label_le_of_start_le hstart route t hc⟩

theorem nested_iff_weekInDay : Nested 1700000000 {} { hours := some 168 } :=
  (nested_iff (by decide) (by decide) (by decide)).mpr (by decide)

/-- The largest parameter wraps around to a window that starts in an hour. -/
theorem not_nested : sinceOf 1700000000 Int64.maxValue = 1700003600 ∧
    ¬ ∀ (now : Int64) (narrow wide : RangeParams), 0 ≤ now.toInt → now.toInt ≤ 2 ^ 40 →
      narrow.window ≤ wide.window → Nested now narrow wide := by
  refine ⟨by decide, fun h => ?_⟩
  have hnested := h 1700000000 {} { hours := some Int64.maxValue } (by decide) (by decide)
    (by decide)
  exact absurd hnested.safe.2 (by decide)

end Api

end Netwatch
