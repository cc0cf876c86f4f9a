import Netwatch.Db.Bypass
import Netwatch.Db.Overview
import Netwatch.Db.QueryLog
import Netwatch.Db.Writer

/-!
# What retention takes away

The writer prunes once an hour. A report looks back over a window, or at the newest rows; as long
as what it looks at is younger than everything that has been pruned, it is the report that a
database without retention would give.

## Main definitions

- `Horizons` — how far back the log, the samples and the alerts are complete
- `Spares` — a prune that deletes nothing younger
- `AlikeFrom` — two databases with the same rows from the horizons on
- `SameReports` — the reports that do not look further back

## Main results

- `alike_run` — a pipeline against the same one that never prunes
- `sameReports_run` — its reports are the same
-/

namespace Netwatch

open RustStd Interleaving

namespace Db

structure Horizons where
  log : ℤ
  samples : ℤ
  alerts : ℤ

/-- The same rows from the horizons on, the same devices, and the same ids to come. -/
structure AlikeFrom (h : Horizons) (t t' : Tables) : Prop where
  queries : (t.queries.rows.filter fun q => h.log ≤ q.ts) =
    t'.queries.rows.filter fun q => h.log ≤ q.ts
  querySequence : t.queries.sequence = t'.queries.sequence
  devices : t.devices = t'.devices
  samples : (t.ifaceSamples.filter fun r => h.samples ≤ r.ts) =
    t'.ifaceSamples.filter fun r => h.samples ≤ r.ts
  alerts : (t.alerts.rows.filter fun a => h.alerts ≤ a.ts) =
    t'.alerts.rows.filter fun a => h.alerts ≤ a.ts
  alertSequence : t.alerts.sequence = t'.alerts.sequence

theorem AlikeFrom.refl (h : Horizons) (t : Tables) : AlikeFrom h t t :=
  ⟨rfl, rfl, rfl, rfl, rfl, rfl⟩

variable {h : Horizons} {t t' : Tables}

/-! ### What keeps databases alike -/

/-- Leaving out what is older than a cutoff does not show from the cutoff on. -/
theorem filter_recent {α : Type} (ts : α → ℤ) {cutoff since : ℤ} (hle : cutoff ≤ since)
    (rows : List α) :
    ((rows.filter fun a => ¬ ts a < cutoff).filter fun a => since ≤ ts a) =
      rows.filter fun a => since ≤ ts a := by
  rw [List.filter_filter]
  refine List.filter_congr fun a _ => ?_
  by_cases ha : since ≤ ts a
  · have hnot : ¬ ts a < cutoff := by omega
    simp [ha, hnot]
  · simp [ha]

theorem alike_foldl {deletes : List Statement}
    (hdelete : ∀ delete ∈ deletes, ∀ t, AlikeFrom h t t' → AlikeFrom h (delete t) t')
    (hlike : AlikeFrom h t t') :
    AlikeFrom h (deletes.foldl (fun t delete => delete t) t) t' := by
  induction deletes generalizing t with
  | nil => exact hlike
  | cons delete deletes ih =>
    obtain ⟨hfirst, hrest⟩ := List.forall_mem_cons.mp hdelete
    exact ih hrest (hfirst t hlike)

/-- However many of the deletes take effect. -/
theorem AlikeFrom.prune (hlike : AlikeFrom h t t') {now : ℤ} {retentionDays : ℕ}
    (hlog : now - retentionDays * 86400 ≤ h.log) (hsamples : now - 3 * 86400 ≤ h.samples)
    (halerts : now - alertRetentionDays * 86400 ≤ h.alerts) (done : ℕ) :
    AlikeFrom h (prune now retentionDays done t) t' := by
  refine alike_foldl ?_ hlike
  intro delete hdelete t hlike
  have hmem := List.mem_of_mem_take hdelete
  simp only [List.mem_cons, List.not_mem_nil, or_false] at hmem
  obtain rfl | rfl | rfl | rfl := hmem
  · exact { hlike with
      queries := (filter_recent QueryRecord.ts hlog t.queries.rows).trans hlike.queries }
  · exact { hlike with
      samples := (filter_recent IfaceSample.ts hsamples t.ifaceSamples).trans hlike.samples }
  · exact { hlike with }
  · exact { hlike with
      alerts := (filter_recent AlertRow.ts halerts t.alerts.rows).trans hlike.alerts }

/-- Every op adds to both databases what does not depend on older rows. -/
theorem AlikeFrom.execute (hlike : AlikeFrom h t t') (op : WriteOp) :
    AlikeFrom h (t.execute op) (t'.execute op) := by
  cases op with
  | query e =>
    refine { hlike with queries := ?_, querySequence := ?_ }
    · show ((t.queries.rows ++ [_]).filter _) = (t'.queries.rows ++ [_]).filter _
      rw [List.filter_append, List.filter_append, hlike.queries, hlike.querySequence]
    · exact congrArg (· + 1) hlike.querySequence
  | iface sample =>
    refine { hlike with samples := ?_ }
    show ((t.ifaceSamples ++ [sample]).filter _) = (t'.ifaceSamples ++ [sample]).filter _
    rw [List.filter_append, List.filter_append, hlike.samples]
  | latency ts target ms => exact { hlike with }
  | alert ts kind severity subject detail notified =>
    refine { hlike with alerts := ?_, alertSequence := ?_ }
    · show ((t.alerts.rows ++ [_]).filter _) = (t'.alerts.rows ++ [_]).filter _
      rw [List.filter_append, List.filter_append, hlike.alerts, hlike.alertSequence]
    · exact congrArg (· + 1) hlike.alertSequence
  | device d =>
    have hdevices := Tables.devices_execute_congr hlike.devices (.device d)
    -- the other tables are not touched
    have hother : ∀ t : Tables, (t.execute (.device d)).queries = t.queries ∧
        (t.execute (.device d)).ifaceSamples = t.ifaceSamples ∧
          (t.execute (.device d)).alerts = t.alerts := by
      intro t
      rw [Tables.execute_device]
      cases d.ip <;> exact ⟨rfl, rfl, rfl⟩
    obtain ⟨hq, hi, ha⟩ := hother t
    obtain ⟨hq', hi', ha'⟩ := hother t'
    refine ⟨?_, ?_, hdevices, ?_, ?_, ?_⟩
    · rw [hq, hq', hlike.queries]
    · rw [hq, hq', hlike.querySequence]
    · rw [hi, hi', hlike.samples]
    · rw [ha, ha', hlike.alerts]
    · rw [ha, ha', hlike.alertSequence]

theorem AlikeFrom.executeAll (hlike : AlikeFrom h t t') (ops : List WriteOp) :
    AlikeFrom h (t.executeAll ops) (t'.executeAll ops) := by
  induction ops generalizing t t' with
  | nil => exact hlike
  | cons op ops ih => exact ih (hlike.execute op)

/-- Whether a transaction succeeds does not depend on the tables. -/
theorem AlikeFrom.flush (hlike : AlikeFrom h t t') (fails : ℕ → Bool) (ops : List WriteOp) :
    (flush fails t ops).1 = (flush fails t' ops).1 ∧
      AlikeFrom h (flush fails t ops).2 (flush fails t' ops).2 := by
  have hfst : (Db.flush fails t ops).1 = true ↔ (Db.flush fails t' ops).1 = true :=
    flush_fst_iff.trans flush_fst_iff.symm
  obtain hflush | hflush := flush_cases fails t ops
  · obtain hflush' | hflush' := flush_cases fails t' ops
    · rw [hflush, hflush']
      exact ⟨rfl, hlike⟩
    · rw [hflush, hflush'] at hfst
      exact absurd (hfst.mpr rfl) Bool.false_ne_true
  · obtain hflush' | hflush' := flush_cases fails t' ops
    · rw [hflush, hflush'] at hfst
      exact absurd (hfst.mp rfl) Bool.false_ne_true
    · rw [hflush, hflush']
      exact ⟨rfl, hlike.executeAll ops⟩

/-! ### Two pipelines -/

/-- Nothing younger than the horizons is deleted. -/
def Spares {ι : Type} (h : Horizons) : WriterAct ι → Prop
  | .prune now retentionDays _ =>
    now - retentionDays * 86400 ≤ h.log ∧ now - 3 * 86400 ≤ h.samples ∧
      now - alertRetentionDays * 86400 ≤ h.alerts
  | _ => True

/-- The run of a writer that never prunes. -/
def WriterAct.isPrune {ι : Type} : WriterAct ι → Bool
  | .prune _ _ _ => true
  | _ => false

variable {ι : Type}

/-- The pipelines are in the same state, but for what has been pruned. -/
structure AlikePipelines (h : Horizons) (s s' : Pipeline ι) : Prop where
  queue : s.queue = s'.queue
  pending : s.pending = s'.pending
  phase : s.phase = s'.phase
  producersGone : s.producersGone = s'.producersGone
  dropped : s.dropped = s'.dropped
  sent : s.sent = s'.sent
  tables : AlikeFrom h s.tables s'.tables

section Steps

variable {s s' : Pipeline ι}

theorem AlikePipelines.send (hlike : AlikePipelines h s s') (producer : ι) (op : WriteOp) :
    AlikePipelines h (s.send producer op) (s'.send producer op) := by
  rw [Pipeline.send, Pipeline.send, hlike.queue, hlike.sent, hlike.dropped]
  split
  · exact { hlike with queue := rfl, dropped := rfl, sent := rfl }
  · exact { hlike with queue := rfl, dropped := rfl, sent := rfl }

theorem AlikePipelines.push (hlike : AlikePipelines h s s') (handed : Handed ι)
    (rest : List (Handed ι)) : AlikePipelines h (s.push handed rest) (s'.push handed rest) := by
  rw [Pipeline.push, Pipeline.push, hlike.pending]
  exact { hlike with queue := rfl, pending := rfl, phase := rfl }

theorem AlikePipelines.receive (hlike : AlikePipelines h s s') :
    AlikePipelines h s.receive s'.receive := by
  rw [Pipeline.receive, Pipeline.receive, hlike.phase, hlike.queue, hlike.producersGone]
  split
  · split
    · exact { hlike with queue := rfl, phase := rfl, producersGone := rfl }
    · exact hlike
  · exact hlike.push _ _
  · exact hlike.push _ _
  · exact hlike

theorem AlikePipelines.flushBatch (hlike : AlikePipelines h s s') (fails : ℕ → Bool) :
    AlikePipelines h (s.flushBatch fails) (s'.flushBatch fails) := by
  rw [Pipeline.flushBatch, Pipeline.flushBatch, hlike.pending]
  exact { hlike with
    pending := rfl
    phase := rfl
    tables := (hlike.tables.flush fails _).2 }

theorem AlikePipelines.prune (hlike : AlikePipelines h s s') {now : ℤ} {retentionDays done : ℕ}
    (hspares : Spares h (.prune now retentionDays done : WriterAct ι)) :
    AlikePipelines h (Pipeline.step (.prune now retentionDays done) s) s' := by
  obtain ⟨hlog, hsamples, halerts⟩ := hspares
  rw [Pipeline.step]
  split
  · exact { hlike with tables := hlike.tables.prune hlog hsamples halerts done }
  · exact hlike

/-- Any other act does the same to both. -/
theorem AlikePipelines.step (hlike : AlikePipelines h s s') {a : WriterAct ι}
    (ha : a.isPrune = false) : AlikePipelines h (Pipeline.step a s) (Pipeline.step a s') := by
  cases a with
  | send producer op =>
    rw [Pipeline.step, Pipeline.step, hlike.producersGone]
    split
    · exact hlike
    · exact hlike.send producer op
  | hangUp => exact { hlike with producersGone := rfl }
  | receive => exact hlike.receive
  | deadline =>
    rw [Pipeline.step, Pipeline.step, hlike.phase]
    split
    · exact { hlike with phase := rfl }
    · exact hlike
  | flush fails =>
    rw [Pipeline.step, Pipeline.step, hlike.phase]
    split
    · exact hlike.flushBatch fails
    · exact hlike
  | prune now retentionDays done => cases ha

end Steps

/-- A pipeline against the same one that never prunes. -/
theorem alike_run {acts : List (WriterAct ι)} (hspares : ∀ a ∈ acts, Spares h a)
    {s s' : Pipeline ι} (hlike : AlikePipelines h s s') :
    AlikePipelines h (run Pipeline.step acts s)
      (run Pipeline.step (acts.filter fun a => !a.isPrune) s') := by
  induction acts generalizing s s' with
  | nil => exact hlike
  | cons a acts ih =>
    obtain ⟨ha, hrest⟩ := List.forall_mem_cons.mp hspares
    cases hprune : a.isPrune with
    | false =>
      rw [List.filter_cons_of_pos (by rw [hprune]; rfl)]
      exact ih hrest (hlike.step hprune)
    | true =>
      rw [List.filter_cons_of_neg (by rw [hprune]; decide)]
      refine ih hrest ?_
      cases a with
      | prune now retentionDays done => exact hlike.prune ha
      | _ => cases hprune

/-! ### The reports -/

/-- Lists that agree where `q` holds agree where a stronger condition does. -/
theorem filter_of_filter_eq {α : Type} {rows rows' : List α} {p q : α → Bool}
    (hsame : rows.filter q = rows'.filter q) (hp : ∀ a, p a = true → q a = true) :
    rows.filter p = rows'.filter p := by
  have hcut : ∀ rows : List α, (rows.filter q).filter p = rows.filter p := by
    intro rows
    rw [List.filter_filter]
    refine List.filter_congr fun a _ => ?_
    cases ha : p a with
    | false => rfl
    | true => rw [hp a ha, Bool.and_self]
  rw [← hcut rows, hsame, hcut]

theorem AlikeFrom.filter_queries (hlike : AlikeFrom h t t') {p : QueryRecord → Bool}
    (hp : ∀ q, p q = true → h.log ≤ q.ts) : t.queries.rows.filter p = t'.queries.rows.filter p :=
  filter_of_filter_eq hlike.queries fun q hq => decide_eq_true (hp q hq)

theorem AlikeFrom.countP_queries (hlike : AlikeFrom h t t') {p : QueryRecord → Bool}
    (hp : ∀ q, p q = true → h.log ≤ q.ts) : t.queries.rows.countP p = t'.queries.rows.countP p := by
  rw [List.countP_eq_length_filter, List.countP_eq_length_filter, hlike.filter_queries hp]

theorem AlikeFrom.filter_since (hlike : AlikeFrom h t t') {since : ℤ} (hle : h.log ≤ since) :
    (t.queries.rows.filter fun q => since ≤ q.ts) =
      t'.queries.rows.filter fun q => since ≤ q.ts :=
  hlike.filter_queries fun _ hq => hle.trans (of_decide_eq_true hq)

/-- The reports that look back no further than to the horizons. -/
structure SameReports (h : Horizons) (t t' : Tables) : Prop where
  panels : ∀ (picks : Api.Picks) (route : Api.Route) (now : Int64) p,
    h.log ≤ (sinceOf now p.window).toInt → route.report picks t now p = route.report picks t' now p
  chart : ∀ (now : Int64) p, h.log ≤ (sinceOf now p.clamped).toInt →
    Api.timeseries t now p = Api.timeseries t' now p
  summary : ∀ now now', h.log ≤ now - 86400 → h.log ≤ now' - 3600 →
    summary t now now' = summary t' now now'
  devices : ∀ now, h.log ≤ now - 86400 → devices t now = devices t' now
  suspects : ∀ now windowHours maxQueries limit, h.log ≤ bypassCutoff now windowHours →
    bypassSuspects t now windowHours maxQueries limit =
      bypassSuspects t' now windowHours maxQueries limit
  offenders : ∀ (now : ℤ) (windowMins threshold : ℕ), h.log ≤ now - windowMins * 60 →
    nxdomainOffenders t now windowMins threshold = nxdomainOffenders t' now windowMins threshold
  interfaces : ∀ now minutes, h.samples ≤ now - max minutes 1 * 60 →
    ifaceSeries t now minutes = ifaceSeries t' now minutes
  alerts : ∀ limit, limit ≤ (t.alerts.rows.filter fun a => h.alerts ≤ a.ts).length →
    alerts t limit = alerts t' limit
  log : ∀ p, (Api.QueryParams.filter p).offset + (Api.QueryParams.filter p).limit ≤
      (t.queries.rows.filter fun q => h.log ≤ q.ts ∧ p.filter.accepts q = true).length →
    Api.queries t p = Api.queries t' p

theorem domainRows_eq (hlike : AlikeFrom h t t') {since : ℤ} (hle : h.log ≤ since)
    (blocked : Bool) : domainRows t since blocked = domainRows t' since blocked :=
  hlike.filter_queries fun _ hq => hle.trans (of_decide_eq_true hq).1

/-- The window may be cut out before the join. -/
theorem clientRows_eq (hlike : AlikeFrom h t t') {since : ℤ} (hle : h.log ≤ since) :
    clientRows t since = clientRows t' since := by
  have hjoin : ∀ t : Tables, clientRows t since =
      joinDevices t (t.queries.rows.filter fun q => since ≤ q.ts) := by
    intro t
    exact Sql.filter_leftJoin _ _ _ fun q : QueryRecord => since ≤ q.ts
  rw [hjoin, hjoin, hlike.filter_since hle, joinDevices, joinDevices, hlike.devices]

theorem panels_eq (hlike : AlikeFrom h t t') (picks : Api.Picks) (route : Api.Route)
    (now : Int64) (p : Api.RangeParams) (hle : h.log ≤ (sinceOf now p.window).toInt) :
    route.report picks t now p = route.report picks t' now p := by
  cases route with
  | topDomains =>
    rw [Api.Route.report, Api.Route.report, Api.topDomains, Api.topDomains, Db.topDomains,
      Db.topDomains, domainRows_eq hlike hle]
  | topBlocked =>
    rw [Api.Route.report, Api.Route.report, Api.topBlocked, Api.topBlocked, Db.topDomains,
      Db.topDomains, domainRows_eq hlike hle]
  | topClients =>
    rw [Api.Route.report, Api.Route.report, Api.topClients, Api.topClients, topClients, topClients,
      topClientsSince, topClientsSince, clientRows_eq hlike hle]
  | queryTypes =>
    rw [Api.Route.report, Api.Route.report, Api.queryTypes, Api.queryTypes, Db.queryTypes,
      Db.queryTypes, typeRows, typeRows, hlike.filter_since hle]

theorem devices_congr (hlike : AlikeFrom h t t') {now : ℤ} (hle : h.log ≤ now - 86400) :
    devices t now = devices t' now := by
  rw [devices, devices, perClient, perClient, hlike.filter_since hle, hlike.devices]

theorem summary_congr (hlike : AlikeFrom h t t') {now now' : ℤ} (hday : h.log ≤ now - 86400)
    (hhour : h.log ≤ now' - 3600) : summary t now now' = summary t' now now' := by
  have hcount : (t.queries.rows.countP fun q => now' - 3600 ≤ q.ts) =
      t'.queries.rows.countP fun q => now' - 3600 ≤ q.ts :=
    hlike.countP_queries fun _ hq => hhour.trans (of_decide_eq_true hq)
  rw [summary, summary, hlike.filter_since hday, hcount, hlike.devices]

theorem bypassSuspects_congr (hlike : AlikeFrom h t t') {now : ℤ} {windowHours : ℕ}
    (hle : h.log ≤ bypassCutoff now windowHours) (maxQueries : ℤ) (limit : ℕ) :
    bypassSuspects t now windowHours maxQueries limit =
      bypassSuspects t' now windowHours maxQueries limit := by
  have hcount : windowCount t (bypassCutoff now windowHours) =
      windowCount t' (bypassCutoff now windowHours) := by
    funext ip
    exact hlike.countP_queries fun _ hq => hle.trans (of_decide_eq_true hq).2
  rw [bypassSuspects, bypassSuspects, presentDevices, presentDevices, hlike.devices, hcount]

theorem nxdomainOffenders_congr (hlike : AlikeFrom h t t') {now : ℤ} {windowMins : ℕ}
    (hle : h.log ≤ now - windowMins * 60) (threshold : ℕ) :
    nxdomainOffenders t now windowMins threshold =
      nxdomainOffenders t' now windowMins threshold := by
  rw [nxdomainOffenders, nxdomainOffenders]
  rw [hlike.filter_queries fun _ hq => hle.trans (of_decide_eq_true hq).1]

theorem ifaceSeries_congr (hlike : AlikeFrom h t t') {now minutes : ℤ}
    (hle : h.samples ≤ now - max minutes 1 * 60) :
    ifaceSeries t now minutes = ifaceSeries t' now minutes := by
  have hrows : (t.ifaceSamples.filter fun r => now - max minutes 1 * 60 ≤ r.ts) =
      t'.ifaceSamples.filter fun r => now - max minutes 1 * 60 ≤ r.ts :=
    filter_of_filter_eq hlike.samples fun r hr =>
      decide_eq_true (hle.trans (of_decide_eq_true hr))
  rw [ifaceSeries, ifaceSeries, hrows]

instance : Std.Total AlertNotOlder := ⟨fun a a' => by rw [AlertNotOlder, AlertNotOlder]; omega⟩

instance : IsTrans AlertRow AlertNotOlder :=
  ⟨fun a a' a'' h h' => by rw [AlertNotOlder] at h h' ⊢; omega⟩

/-- The newest alerts are younger than the horizon, so nothing older is looked at. -/
theorem alerts_split (t : Tables) (horizon : ℤ) {limit : ℕ}
    (hmany : limit ≤ (t.alerts.rows.filter fun a => horizon ≤ a.ts).length) :
    alerts t limit = Sql.page limit 0
      ((t.alerts.rows.filter fun a => horizon ≤ a.ts).insertionSort AlertNotOlder) := by
  have hsep : Sql.Separates AlertNotOlder t.alerts.rows := by
    intro a ha a' ha' h h'
    refine t.alerts.eq_of_key_eq ha ha' ?_
    rw [AlertNotOlder] at h h'
    omega
  have hfirst : ∀ a ∈ t.alerts.rows, ∀ a' ∈ t.alerts.rows, decide (horizon ≤ a.ts) = true →
      decide (horizon ≤ a'.ts) = false → AlertNotOlder a a' := by
    intro a _ a' _ ha ha'
    rw [decide_eq_true_eq] at ha
    rw [decide_eq_false_iff_not] at ha'
    rw [AlertNotOlder]
    omega
  rw [alerts, Sql.insertionSort_split hsep (fun a => horizon ≤ a.ts) hfirst]
  refine Sql.page_append _ ?_
  rw [List.length_insertionSort]
  omega

theorem alerts_congr (hlike : AlikeFrom h t t') {limit : ℕ}
    (hmany : limit ≤ (t.alerts.rows.filter fun a => h.alerts ≤ a.ts).length) :
    alerts t limit = alerts t' limit := by
  rw [alerts_split t h.alerts hmany]
  rw [hlike.alerts] at hmany ⊢
  rw [alerts_split t' h.alerts hmany]

/-- The same for the pages of the log. -/
theorem queries_split (honeHolder : t.OneHolder) (p : Api.QueryParams) (horizon : ℤ)
    (hmany : p.filter.offset + p.filter.limit ≤
      (t.queries.rows.filter fun q => horizon ≤ q.ts ∧ p.filter.accepts q = true).length) :
    Api.queries t p = (Sql.page (max 1 (min p.filter.limit 1000)) p.filter.offset
      ((t.queries.rows.filter fun q =>
        horizon ≤ q.ts ∧ p.filter.accepts q = true).insertionSort NotOlder)).map
          fun q => queryRow (withDevice t q) := by
  have hsep : Sql.Separates NotOlder (t.queries.rows.filter p.filter.accepts) :=
    fun q hq q' hq' => separates_notOlder t q (List.mem_of_mem_filter hq) q'
      (List.mem_of_mem_filter hq')
  have hfirst : ∀ q ∈ t.queries.rows.filter p.filter.accepts,
      ∀ q' ∈ t.queries.rows.filter p.filter.accepts, decide (horizon ≤ q.ts) = true →
        decide (horizon ≤ q'.ts) = false → NotOlder q q' := by
    intro q _ q' _ hq hq'
    rw [decide_eq_true_eq] at hq
    rw [decide_eq_false_iff_not] at hq'
    rw [NotOlder]
    omega
  have hrecent : (t.queries.rows.filter p.filter.accepts).filter (fun q => horizon ≤ q.ts) =
      t.queries.rows.filter fun q => horizon ≤ q.ts ∧ p.filter.accepts q = true := by
    rw [List.filter_filter]
    refine List.filter_congr fun q _ => ?_
    simp
  have hclamp : max 1 (min p.filter.limit 1000) = p.filter.limit := by
    show max 1 (min (max 1 (min (p.limit.getD 100).toNat 1000)) 1000) = _
    show _ = max 1 (min (p.limit.getD 100).toNat 1000)
    omega
  rw [Api.queries, recentQueries_eq honeHolder, ← filter_newestFirst,
    Sql.insertionSort_split hsep (fun q => horizon ≤ q.ts) hfirst, hrecent, Sql.page_append]
  rw [List.length_insertionSort, hclamp]
  exact hmany

theorem queries_congr (hlike : AlikeFrom h t t') (honeHolder : t.OneHolder) (p : Api.QueryParams)
    (hmany : p.filter.offset + p.filter.limit ≤
      (t.queries.rows.filter fun q => h.log ≤ q.ts ∧ p.filter.accepts q = true).length) :
    Api.queries t p = Api.queries t' p := by
  have hrows : (t.queries.rows.filter fun q => h.log ≤ q.ts ∧ p.filter.accepts q = true) =
      t'.queries.rows.filter fun q => h.log ≤ q.ts ∧ p.filter.accepts q = true :=
    hlike.filter_queries fun _ hq => (of_decide_eq_true hq).1
  have hholder : ∀ q, withDevice t q = withDevice t' q := by
    intro q
    rw [withDevice, withDevice, hlike.devices]
  have honeHolder' : t'.OneHolder := Tables.oneHolder_of_devices_eq hlike.devices.symm honeHolder
  rw [queries_split honeHolder p h.log hmany]
  rw [hrows] at hmany ⊢
  rw [queries_split honeHolder' p h.log hmany]
  simp only [hholder]

theorem AlikeFrom.sameReports (hlike : AlikeFrom h t t') (honeHolder : t.OneHolder) :
    SameReports h t t' where
  panels route now p hle := panels_eq hlike route now p hle
  chart now p hle := by
    rw [Api.timeseries, Api.timeseries, Db.timeseries, Db.timeseries, hlike.filter_since hle]
  summary _ _ hday hhour := summary_congr hlike hday hhour
  devices _ hle := devices_congr hlike hle
  suspects _ _ maxQueries limit hle := bypassSuspects_congr hlike hle maxQueries limit
  offenders _ _ threshold hle := nxdomainOffenders_congr hlike hle threshold
  interfaces _ _ hle := ifaceSeries_congr hlike hle
  alerts _ hmany := alerts_congr hlike hmany
  log p hmany := queries_congr hlike honeHolder p hmany

/-! ### The whole pipeline -/

theorem oneHolder_pipeline (a : WriterAct ι) {s : Pipeline ι} (hs : s.tables.OneHolder) :
    (Pipeline.step a s).tables.OneHolder := by
  cases a with
  | send producer op =>
    rw [Pipeline.step, Pipeline.send]
    split
    · exact hs
    · split <;> exact hs
  | hangUp => exact hs
  | receive =>
    rw [Pipeline.step, Pipeline.receive]
    split
    · split <;> exact hs
    · exact hs
    · exact hs
    · exact hs
  | deadline =>
    rw [Pipeline.step]
    split <;> exact hs
  | flush fails =>
    rw [Pipeline.step]
    split
    · exact oneHolder_step (.flush fails (s.pending.map Handed.op)) hs
    · exact hs
  | prune now retentionDays done =>
    rw [Pipeline.step]
    split
    · exact oneHolder_step (.prune now retentionDays done) hs
    · exact hs

/-- Whatever is sent, dropped, written or not written, and however often the writer prunes: the
reports that do not look beyond the horizons are those of a writer that keeps everything. -/
theorem sameReports_run (acts : List (WriterAct ι)) (h : Horizons)
    (hspares : ∀ a ∈ acts, Spares h a) :
    SameReports h (run Pipeline.step acts ({} : Pipeline ι)).tables
      (run Pipeline.step (acts.filter fun a => !a.isPrune) ({} : Pipeline ι)).tables := by
  have hlike : AlikePipelines h ({} : Pipeline ι) {} :=
    ⟨rfl, rfl, rfl, rfl, rfl, rfl, .refl h .fresh⟩
  have hone : (run Pipeline.step acts ({} : Pipeline ι)).tables.OneHolder :=
    run_invariant (I := fun s : Pipeline ι => s.tables.OneHolder)
      (fun a _ hs => oneHolder_pipeline a hs) acts oneHolder_fresh
  exact (alike_run hspares hlike).tables.sameReports hone

/-- A query of the day before, one of the month before, and the prune that deletes it. -/
def monthLater : List (WriterAct Unit) :=
  [.send () (Api.asked 1697000000 .cached), .send () (Api.asked 1699990000 .blocked), .receive,
    .receive, .deadline, .flush fun _ => false, .prune 1700000000 14 4]

theorem sameReports_run_monthLater :
    SameReports ⟨1700000000 - 14 * 86400, 1700000000 - 3 * 86400, 1700000000 - 90 * 86400⟩
      (run Pipeline.step monthLater ({} : Pipeline Unit)).tables
      (run Pipeline.step (monthLater.filter fun a => !a.isPrune) ({} : Pipeline Unit)).tables := by
  refine sameReports_run monthLater _ ?_
  intro a ha
  simp only [monthLater, List.mem_cons, List.not_mem_nil, or_false] at ha
  obtain rfl | rfl | rfl | rfl | rfl | rfl | rfl := ha
  · trivial
  · trivial
  · trivial
  · trivial
  · trivial
  · trivial
  · exact ⟨by decide, by decide, by decide⟩

example : ((run Pipeline.step monthLater ({} : Pipeline Unit)).tables.queries.rows.length,
    (run Pipeline.step (monthLater.filter fun a => !a.isPrune)
      ({} : Pipeline Unit)).tables.queries.rows.length) = (1, 2) := by
  decide

end Db

end Netwatch
