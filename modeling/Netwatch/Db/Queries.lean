import Netwatch.Db.DevicesTable
import Netwatch.Sql.Query

/-!
# The dashboard's reads

`recent_queries` and `top_clients` of `db.rs` join the query log with the devices on the
address. While an address has one holder the join has one row per query, so the log can be
paged through and the counts are true.

## Main definitions

- `recentQueries`, `topClientsSince` — the two reads, the second from any start of its window
- `newestFirst` — the query log in the order of the dashboard

## Main results

- `log_exact` — pages and counts, in every database the writer can leave
-/

namespace Netwatch.Db

open RustStd

structure QueryRow where
  ts : ℤ
  clientIp : Str
  clientName : Option Str
  domain : Str
  qtype : Str
  status : Str
  elapsedMs : Option UInt32
  answer : Option Str
  blocklist : Option Str
  deriving DecidableEq

structure QueryFilter where
  limit : ℕ
  offset : ℕ
  search : Option Str := none
  client : Option Str := none
  status : Option Str := none

structure Counted where
  label : Str
  sublabel : Option Str
  count : ℕ
  deriving DecidableEq

/-- `LEFT JOIN devices d ON d.ip = q.client_ip`, for the queries `qs`. -/
def joinDevices (t : Tables) (qs : List QueryRecord) :
    List (QueryRecord × Option DeviceRecord) :=
  Sql.leftJoin (fun q d => d.ip = some q.clientIp) qs t.devices.rows

/-- `ORDER BY q.ts DESC, q.id DESC`. -/
def NotOlder (q q' : QueryRecord) : Prop := q'.ts < q.ts ∨ q'.ts = q.ts ∧ q'.id ≤ q.id

instance : DecidableRel NotOlder := fun q q' =>
  inferInstanceAs (Decidable (q'.ts < q.ts ∨ q'.ts = q.ts ∧ q'.id ≤ q.id))

def queryRow (joined : QueryRecord × Option DeviceRecord) : QueryRow where
  ts := joined.1.ts
  clientIp := joined.1.clientIp
  clientName := joined.2.bind DeviceRecord.hostname
  domain := joined.1.domain
  qtype := joined.1.qtype
  status := joined.1.status
  elapsedMs := joined.1.elapsedMs
  answer := joined.1.answer
  blocklist := joined.1.blocklist

def QueryFilter.accepts (f : QueryFilter) (q : QueryRecord) : Bool :=
  (f.search.all fun s => Sql.like ('%' :: s ++ ['%']) q.domain) &&
    (f.client.all fun c => q.clientIp == c) && f.status.all fun s => q.status == s

def recentQueries (t : Tables) (f : QueryFilter) : List QueryRow :=
  let joined := (joinDevices t t.queries.rows).filter fun j => f.accepts j.1
  let ordered := joined.insertionSort fun j j' => NotOlder j.1 j'.1
  (Sql.page (max 1 (min f.limit 1000)) f.offset ordered).map queryRow

/-- Groups in the order of their counts, at most `limit` of them. SQLite leaves the order of
equal counts open. -/
def report {α : Type} (label : α → Str) (sublabel : List α → Option Str) (limit : ℕ)
    (rows : List α) : List Counted :=
  let counted := (Sql.groupBy label rows).map fun g =>
    { label := g.1, sublabel := sublabel g.2, count := g.2.length : Counted }
  Sql.page limit 0 (counted.insertionSort fun c c' => c'.count ≤ c.count)

def clientRows (t : Tables) (since : ℤ) : List (QueryRecord × Option DeviceRecord) :=
  (joinDevices t t.queries.rows).filter fun j => since ≤ j.1.ts

/-- `top_clients` from the start of its window on; `pick` takes the name from a row of a group. -/
def topClientsSince (pick : Sql.Pick (QueryRecord × Option DeviceRecord)) (t : Tables)
    (since : ℤ) (limit : ℕ) : List Counted :=
  report (fun j => j.1.clientIp)
    (fun g => ((pick.row g).bind Prod.snd).bind fun d => d.hostname.or d.vendor)
    (max 1 (min limit 200)) (clientRows t since)

theorem count_report {α : Type} {label : α → Str} {sublabel : List α → Option Str} {limit : ℕ}
    {rows : List α} {c : Counted} (h : c ∈ report label sublabel limit rows) :
    c.count = rows.countP fun a => label a = c.label := by
  have hmem := List.mem_of_mem_drop (List.mem_of_mem_take h)
  rw [List.mem_insertionSort, List.mem_map] at hmem
  obtain ⟨g, hg, rfl⟩ := hmem
  show g.2.length = rows.countP fun a => label a = g.1
  rw [Sql.mem_groupBy hg, List.countP_eq_length_filter]

theorem notOlder_total (q q' : QueryRecord) : NotOlder q q' ∨ NotOlder q' q := by
  rw [NotOlder, NotOlder]
  omega

theorem notOlder_trans {q q' q'' : QueryRecord} (h : NotOlder q q') (h' : NotOlder q' q'') :
    NotOlder q q'' := by
  rw [NotOlder] at h h' ⊢
  omega

instance : Std.Total NotOlder := ⟨notOlder_total⟩

instance : IsTrans QueryRecord NotOlder := ⟨fun _ _ _ => notOlder_trans⟩

/-- The query log as the dashboard orders it. -/
def newestFirst (t : Tables) : List QueryRecord := t.queries.rows.insertionSort NotOlder

/-- The device that holds a query's client address. -/
def withDevice (t : Tables) (q : QueryRecord) : QueryRecord × Option DeviceRecord :=
  (q, t.devices.rows.find? fun d => d.ip = some q.clientIp)

theorem perm_newestFirst (t : Tables) : (newestFirst t).Perm t.queries.rows :=
  List.perm_insertionSort NotOlder t.queries.rows

/-- No two rows are equally new: ids are never repeated. -/
theorem pairwise_newestFirst (t : Tables) :
    (newestFirst t).Pairwise fun q q' => q'.ts < q.ts ∨ q'.ts = q.ts ∧ q'.id < q.id := by
  have hsorted : (newestFirst t).Pairwise NotOlder :=
    List.pairwise_insertionSort NotOlder t.queries.rows
  have hids : ((newestFirst t).map QueryRecord.id).Nodup :=
    ((perm_newestFirst t).map QueryRecord.id).nodup_iff.mpr t.queries.nodup
  have hne : (newestFirst t).Pairwise fun q q' => q.id ≠ q'.id := List.pairwise_map.mp hids
  refine hsorted.imp₂ (fun q q' hle hid => ?_) hne
  rw [NotOlder] at hle
  omega

/-- With one holder per address the join neither repeats nor drops a query. -/
theorem joinDevices_eq_map {t : Tables} (h : t.OneHolder) (qs : List QueryRecord) :
    joinDevices t qs = qs.map (withDevice t) :=
  Sql.leftJoin_eq_map fun q _ => h q.clientIp

theorem recentQueries_unfiltered {t : Tables} (h : t.OneHolder) {limit : ℕ}
    (hlow : 1 ≤ limit) (hhigh : limit ≤ 1000) (offset : ℕ) :
    recentQueries t { limit, offset } =
      Sql.page limit offset ((newestFirst t).map fun q => queryRow (withDevice t q)) := by
  have hclamp : max 1 (min limit 1000) = limit := by omega
  have hall : (joinDevices t t.queries.rows).filter (fun j =>
      QueryFilter.accepts { limit, offset } j.1) = joinDevices t t.queries.rows :=
    List.filter_eq_self.mpr fun _ _ => rfl
  have hsort : (joinDevices t t.queries.rows).insertionSort (fun j j' => NotOlder j.1 j'.1) =
      (newestFirst t).map (withDevice t) := by
    rw [joinDevices_eq_map h, newestFirst]
    exact (List.map_insertionSort NotOlder _ (withDevice t) t.queries.rows
      fun _ _ _ _ => Iff.rfl).symm
  rw [recentQueries, hall, hsort, hclamp]
  simp only [Sql.page, List.map_take, List.map_drop, List.map_map]
  rfl

/-- The log shows each query once, and the clients have the counts they should have, wherever
the window starts. -/
structure LogExact (t : Tables) : Prop where
  /-- Every address is in at most one row. -/
  oneHolder : ∀ ip, (t.devices.rows.filter fun r => r.ip = some ip).length ≤ 1
  /-- The pages are the rows of the log, each once and the newest first. -/
  paged : ∃ rows : List QueryRecord, rows.Perm t.queries.rows ∧
    (rows.Pairwise fun q q' => q'.ts < q.ts ∨ q'.ts = q.ts ∧ q'.id < q.id) ∧
    ∀ limit, 1 ≤ limit → limit ≤ 1000 → ∀ pages,
      ((List.range pages).flatMap fun k => recentQueries t { limit, offset := k * limit }) =
        (rows.take (pages * limit)).map fun q => queryRow (withDevice t q)
  counted : ∀ pick since limit, ∀ c ∈ topClientsSince pick t since limit,
    c.count = t.queries.rows.countP fun q => q.clientIp = c.label ∧ since ≤ q.ts

theorem count_topClientsSince {t : Tables} (h : t.OneHolder)
    {pick : Sql.Pick (QueryRecord × Option DeviceRecord)} {since : ℤ} {limit : ℕ} {c : Counted}
    (hc : c ∈ topClientsSince pick t since limit) :
    c.count = t.queries.rows.countP fun q => q.clientIp = c.label ∧ since ≤ q.ts := by
  rw [count_report hc, clientRows, joinDevices_eq_map h, List.countP_filter, List.countP_map]
  congr 1
  funext q
  by_cases hq : q.clientIp = c.label <;> simp [withDevice, hq]

/-- In every database that batches of any ops and retention leave, failing or not, the
dashboard shows each query once. -/
theorem log_exact (steps : List WriterStep) :
    LogExact (Interleaving.run WriterStep.apply steps .fresh) := by
  have hone := oneHolder_run steps
  refine ⟨hone, ⟨newestFirst _, perm_newestFirst _, pairwise_newestFirst _, ?_⟩, ?_⟩
  · intro limit hlow hhigh pages
    simp only [recentQueries_unfiltered hone hlow hhigh]
    rw [Sql.flatMap_page, List.map_take]
  · intro pick since limit c hc
    exact count_topClientsSince hone hc

end Netwatch.Db
