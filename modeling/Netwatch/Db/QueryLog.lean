import Netwatch.Db.Queries
import Netwatch.Sql.Like
import Netwatch.Sql.Order

/-!
# The query log

The log of the dashboard is read page by page, restricted to what the form asks for. The handler
of `api.rs` drops the fields that are blank.

## Main definitions

- `Api.queries` — the handler
- `Api.Selects` — what the form asks for
- `Api.Paged` — the pages are the selected queries

## Main results

- `recentQueries_eq` — the read is a page of the accepted queries, newest first
- `paged_run` — in every database the writer can leave, for every form
-/

namespace Netwatch

open RustStd

namespace Db

/-- `q` comes before `q'` in the log. -/
def Newer (q q' : QueryRecord) : Prop := q'.ts < q.ts ∨ q'.ts = q.ts ∧ q'.id < q.id

/-- Ids tell the queries apart. -/
theorem separates_notOlder (t : Tables) : Sql.Separates NotOlder t.queries.rows := by
  intro q hq q' hq' h h'
  refine t.queries.eq_of_key_eq hq hq' ?_
  rw [NotOlder] at h h'
  omega

theorem filter_newestFirst (t : Tables) (p : QueryRecord → Bool) :
    (t.queries.rows.filter p).insertionSort NotOlder = (newestFirst t).filter p :=
  Sql.filter_insertionSort (separates_notOlder t) p

/-- The read is a page of the accepted queries. -/
theorem recentQueries_eq {t : Tables} (h : t.OneHolder) (f : QueryFilter) :
    recentQueries t f =
      (Sql.page (max 1 (min f.limit 1000)) f.offset ((newestFirst t).filter f.accepts)).map
        fun q => queryRow (withDevice t q) := by
  have hjoin : (joinDevices t t.queries.rows).filter (fun j => f.accepts j.1) =
      (t.queries.rows.filter f.accepts).map (withDevice t) := by
    rw [← joinDevices_eq_map h]
    exact Sql.filter_leftJoin _ _ _ _
  have hsort : ((t.queries.rows.filter f.accepts).map (withDevice t)).insertionSort
      (fun j j' => NotOlder j.1 j'.1) = ((newestFirst t).filter f.accepts).map (withDevice t) := by
    rw [← filter_newestFirst]
    exact (List.map_insertionSort NotOlder _ (withDevice t) _ fun _ _ _ _ => Iff.rfl).symm
  rw [recentQueries, hjoin, hsort]
  simp only [Sql.page, List.map_take, List.map_drop, List.map_map]
  rfl

end Db

namespace Api

open Db

structure QueryParams where
  limit : Option UInt32 := none
  offset : Option UInt32 := none
  search : Option Str := none
  client : Option Str := none
  status : Option Str := none

/-- Empty strings arrive from cleared form fields. -/
def given (field : Option Str) : Option Str := field.filter fun s => Str.trim s ≠ []

def QueryParams.filter (p : QueryParams) : QueryFilter where
  limit := max 1 (min (p.limit.getD 100).toNat 1000)
  offset := (p.offset.getD 0).toNat
  search := given p.search
  client := given p.client
  status := given p.status

def queries (t : Tables) (p : QueryParams) : List QueryRow := recentQueries t p.filter

/-- What the form asks for; a NUL ends the domain that is searched. -/
structure Selects (p : QueryParams) (q : QueryRecord) : Prop where
  search : ∀ s, given p.search = some s → Sql.Contains s (Sql.cString q.domain)
  client : ∀ c, given p.client = some c → q.clientIp = c
  status : ∀ s, given p.status = some s → q.status = s

/-- The pages of a form are the queries it selects, newest first. A wildcard in the search text
may select others too. -/
structure Paged (t : Tables) (p : QueryParams) (rows : List QueryRecord) : Prop where
  logged : ∀ q ∈ rows, q ∈ t.queries.rows
  selected : ∀ q ∈ t.queries.rows, Selects p q → q ∈ rows
  only : (∀ s, given p.search = some s → Sql.Plain s) → ∀ q ∈ rows, Selects p q
  ordered : rows.Pairwise Newer
  pages : ∀ limit : UInt32, 1 ≤ limit → limit ≤ 1000 → ∀ n : ℕ, n * limit.toNat ≤ 2 ^ 32 →
    ((List.range n).flatMap fun k =>
      queries t { p with limit := some limit, offset := some (.ofNat (k * limit.toNat)) }) =
        (rows.take (n * limit.toNat)).map fun q => queryRow (withDevice t q)

theorem accepts_iff {p : QueryParams} {q : QueryRecord} :
    p.filter.accepts q = true ↔
      (∀ s, given p.search = some s → Sql.like ('%' :: s ++ ['%']) q.domain = true) ∧
        (∀ c, given p.client = some c → q.clientIp = c) ∧
        ∀ s, given p.status = some s → q.status = s := by
  rw [QueryFilter.accepts, Bool.and_eq_true, Bool.and_eq_true, Option.all_eq_true,
    Option.all_eq_true, Option.all_eq_true, and_assoc]
  simp only [beq_iff_eq]
  rfl

/-- The search text of the form, if any, is one that `LIKE` reads to its end. -/
def QueryParams.Searchable (p : QueryParams) : Prop :=
  ∀ s, given p.search = some s → Sql.Searchable s

theorem accepts_of_selects {p : QueryParams} {q : QueryRecord} (hsearch : p.Searchable)
    (h : Selects p q) : p.filter.accepts q = true :=
  accepts_iff.mpr ⟨fun s hs => Sql.like_of_contains (hsearch s hs) (h.search s hs), h.client,
    h.status⟩

theorem selects_of_accepts {p : QueryParams} {q : QueryRecord} (hsearch : p.Searchable)
    (hplain : ∀ s, given p.search = some s → Sql.Plain s) (h : p.filter.accepts q = true) :
    Selects p q := by
  obtain ⟨hlike, hclient, hstatus⟩ := accepts_iff.mp h
  refine ⟨fun s hs => ?_, hclient, hstatus⟩
  exact (Sql.like_contains_iff (hsearch s hs) (hplain s hs) q.domain).mp (hlike s hs)

/-- A page, with the numbers as the handler gets them. -/
theorem queries_page {t : Tables} (h : t.OneHolder) (p : QueryParams) {limit : UInt32}
    (hlow : 1 ≤ limit) (hhigh : limit ≤ 1000) {offset : ℕ} (hoffset : offset < 2 ^ 32) :
    queries t { p with limit := some limit, offset := some (.ofNat offset) } =
      Sql.page limit.toNat offset
        (((newestFirst t).filter p.filter.accepts).map fun q => queryRow (withDevice t q)) := by
  have hlimit : max 1 (min (max 1 (min limit.toNat 1000)) 1000) = limit.toNat := by
    rw [UInt32.le_iff_toNat_le] at hlow hhigh
    have hone : (1 : UInt32).toNat = 1 := rfl
    have hmost : (1000 : UInt32).toNat = 1000 := rfl
    omega
  have hsame : ∀ l o, QueryFilter.accepts
      ({ p with limit := some l, offset := some o } : QueryParams).filter = p.filter.accepts :=
    fun _ _ => rfl
  have hoff : (UInt32.ofNat offset).toNat = offset := UInt32.toNat_ofNat_of_lt hoffset
  rw [queries, recentQueries_eq h, hsame]
  show (Sql.page (max 1 (min (max 1 (min limit.toNat 1000)) 1000))
    (UInt32.ofNat offset).toNat _).map _ = _
  rw [hlimit, hoff]
  simp only [Sql.page, List.map_take, List.map_drop]

theorem paged {t : Tables} (h : t.OneHolder) {p : QueryParams} (hsearch : p.Searchable) :
    Paged t p ((newestFirst t).filter p.filter.accepts) := by
  have hmem : ∀ q, q ∈ newestFirst t ↔ q ∈ t.queries.rows := fun q => (perm_newestFirst t).mem_iff
  refine ⟨?_, ?_, ?_, ?_, ?_⟩
  · exact fun q hq => (hmem q).mp (List.mem_of_mem_filter hq)
  · intro q hq hselects
    exact List.mem_filter.mpr ⟨(hmem q).mpr hq, accepts_of_selects hsearch hselects⟩
  · exact fun hplain q hq => selects_of_accepts hsearch hplain (List.mem_filter.mp hq).2
  · exact (pairwise_newestFirst t).sublist List.filter_sublist
  · intro limit hlow hhigh n hn
    have hpages : ∀ k ∈ List.range n,
        queries t { p with limit := some limit, offset := some (.ofNat (k * limit.toNat)) } =
          Sql.page limit.toNat (k * limit.toNat)
            (((newestFirst t).filter p.filter.accepts).map
              fun q => queryRow (withDevice t q)) := by
      intro k hk
      have hpos : 0 < limit.toNat := UInt32.le_iff_toNat_le.mp hlow
      have hlt : k * limit.toNat < n * limit.toNat :=
        Nat.mul_lt_mul_of_pos_right (List.mem_range.mp hk) hpos
      exact queries_page h p hlow hhigh (by omega)
    rw [List.flatMap_congr hpages, Sql.flatMap_page, List.map_take]

/-- Whatever the writer has written and pruned, and whatever the form asks for. -/
theorem paged_run (steps : List WriterStep) {p : QueryParams} (hsearch : p.Searchable) :
    ∃ rows, Paged (Interleaving.run WriterStep.apply steps .fresh) p rows :=
  ⟨_, paged (oneHolder_run steps) hsearch⟩

/-- Two names that the wildcard of a search may stand for, asked for by one client. -/
def searchedLog : List WriterStep :=
  ["ex.ample.com".toList, "ex_ample.com".toList].map fun domain =>
    .flush (fun _ => false) [.query
      { ts := 1699990000, clientIp := "192.168.1.10".toList, domain, qtype := "A".toList
        status := .cached, elapsedMs := none, answer := none, blocklist := none }]

theorem paged_run_wildcard :
    ∃ rows, Paged (Interleaving.run WriterStep.apply searchedLog .fresh)
      { search := some "x_a".toList, status := some " ".toList } rows := by
  refine paged_run searchedLog fun s hs => ?_
  cases hs
  exact ⟨by decide, by decide⟩

end Api

end Netwatch
