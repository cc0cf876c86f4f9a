import Netwatch.Db.RowKind
import Netwatch.Netinfo.Proc
import Netwatch.Sql.Latest

/-!
# Latency

`latency_sampler` of `monitor.rs` times the way to the router and to an upstream resolver at
every tick, and `latest_latency` of `db.rs` is what the dashboard shows of it. Between the two is
the write pipeline, which may lose a measurement, and retention.

## Main definitions

- `Turn.ops` — what a turn of the sampler hands to the writer
- `latestLatency` — the newest stored measurement of each target
- `Pipeline.UpToDate` — what is shown, against what has been written

## Main results

- `latest_run` — over every run of the sampler and of the pipeline
-/

namespace Netwatch

open RustStd Interleaving

namespace Db

def latestLatency (t : Tables) : List LatencyRecord :=
  Sql.latest LatencyRecord.target LatencyRecord.ts t.latency

/-- The row that an op is written as. -/
def WriteOp.measurement : WriteOp → Option LatencyRecord
  | .latency ts target ms => some ⟨ts, target, ms⟩
  | _ => none

def Handed.measurement {ι : Type} (h : Handed ι) : Option LatencyRecord := h.op.measurement

namespace Pipeline

variable {ι : Type}

/-- What has been handed over of measurements. -/
def measured (s : Pipeline ι) : List LatencyRecord := s.sent.filterMap Handed.measurement

/-- What has been committed of them. -/
def stored (s : Pipeline ι) : List LatencyRecord := s.committed.filterMap Handed.measurement

end Pipeline

end Db

namespace Monitor

/-- What one turn of the sampler comes across. -/
structure Turn where
  ts : ℤ
  /-- The text of `/proc/net/route`, if it can be read. -/
  routes : Option Str
  /-- `tcp_probe_ms`: how long the handshake took, if it was over in time. -/
  probe : SocketAddr → ℕ → Option Float

/-- The router, on port 53 or else on port 80. -/
def Turn.gateway (turn : Turn) : Option Float :=
  (turn.routes.bind Netinfo.parseDefaultRoute).bind fun route =>
    (turn.probe ⟨.v4 route.gateway, 53⟩ 1500).or (turn.probe ⟨.v4 route.gateway, 80⟩ 1500)

def Turn.ops (upstream : SocketAddr) (turn : Turn) : List Db.WriteOp :=
  (turn.gateway.map (Db.WriteOp.latency turn.ts "gateway".toList)).toList ++
    ((turn.probe upstream 2500).map (Db.WriteOp.latency turn.ts "upstream".toList)).toList

end Monitor

namespace Db

/-- No prune so far has deleted anything as late as this. -/
def Entry.SparesSince {ι : Type} (horizon : ℤ) : Entry ι → Prop
  | .batch _ => True
  | .pruned now _ _ => now - 3 * 86400 ≤ horizon

namespace Pipeline

variable {ι : Type}

/-- Each target is shown once, with a measurement that has been written, and that is the last one
if it is young enough. -/
structure UpToDate (horizon : ℤ) (s : Pipeline ι) : Prop where
  genuine : ∀ r ∈ latestLatency s.tables, r ∈ s.stored
  once : ∀ target, ((latestLatency s.tables).filter fun r => r.target = target).length ≤ 1
  newest : ∀ target r, (s.stored.filter fun r => r.target = target).getLast? = some r →
    horizon ≤ r.ts → ((latestLatency s.tables).filter fun r => r.target = target) = [r]

/-! ### What is in the table -/

theorem latency_execute (t : Tables) (op : WriteOp) :
    (t.execute op).latency = t.latency ++ op.measurement.toList := by
  cases op with
  | latency ts target ms => rfl
  | query e => exact (List.append_nil _).symm
  | iface s => exact (List.append_nil _).symm
  | alert => exact (List.append_nil _).symm
  | device d =>
    rw [Tables.execute, WriteOp.statements]
    cases d.ip <;> exact (List.append_nil _).symm

/-- The delete of the old measurements may not have been reached. -/
theorem latency_prune (now : ℤ) (retentionDays done : ℕ) (t : Tables) :
    (prune now retentionDays done t).latency = t.latency ∨
      (prune now retentionDays done t).latency =
        t.latency.filter fun r => ¬ r.ts < now - 3 * 86400 := by
  rw [prune]
  rcases done with _ | _ | _ | _ | done
  · exact .inl rfl
  · exact .inl rfl
  · exact .inl rfl
  · exact .inr rfl
  · right
    rw [List.take_of_length_le (by simp)]
    rfl

/-- The measurements are rows that are appended. -/
def latencyKind : RowKind LatencyRecord where
  rows := Tables.latency
  sent := WriteOp.measurement
  keeps now _ r := ¬ r.ts < now - 3 * 86400
  fresh := rfl
  execute := latency_execute
  prune := latency_prune

theorem spares_latencyKind {horizon : ℤ} {history : List (Entry ι)}
    (h : ∀ e ∈ history, e.SparesSince horizon) :
    latencyKind.Spares (fun r => horizon ≤ r.ts) history := by
  intro now retentionDays done hmem r hr
  have hcutoff : now - 3 * 86400 ≤ horizon := h _ hmem
  have hle : horizon ≤ r.ts := of_decide_eq_true hr
  exact decide_eq_true (by omega)

/-! ### What is shown of it -/

/-- The clock has moved on between two measurements of one target. -/
def Ticking (rows : List LatencyRecord) : Prop :=
  rows.Pairwise fun r r' => r.target = r'.target → r.ts < r'.ts

theorem Ticking.filter {rows : List LatencyRecord} (h : Ticking rows) (target : Str) :
    (rows.filter fun r => r.target = target).Pairwise fun r r' => r.ts < r'.ts := by
  refine (List.Pairwise.sublist List.filter_sublist h).imp_of_mem ?_
  intro r r' hr hr' hlt
  have htarget : r.target = target := of_decide_eq_true (List.mem_filter.mp hr).2
  have htarget' : r'.target = target := of_decide_eq_true (List.mem_filter.mp hr').2
  exact hlt (htarget.trans htarget'.symm)

theorem stored_sublist {s : Pipeline ι} (hwf : s.Wf) : s.stored.Sublist s.measured :=
  ((List.sublist_append_left _ _).trans hwf.inOrder).filterMap _

theorem upToDate {s : Pipeline ι} (hwf : s.Wf) {horizon : ℤ}
    (hspares : ∀ e ∈ s.history, e.SparesSince horizon) (hticking : Ticking s.measured) :
    UpToDate horizon s := by
  have hsublist : s.tables.latency.Sublist s.stored := by
    rw [hwf.whole]
    exact latencyKind.sublist_replay s.history
  have hrecent : (s.tables.latency.filter fun r => horizon ≤ r.ts) =
      s.stored.filter fun r => horizon ≤ r.ts := by
    rw [hwf.whole]
    exact RowKind.filter_replay (spares_latencyKind hspares)
  refine ⟨?_, ?_, ?_⟩
  · intro r hr
    exact hsublist.subset (Sql.of_mem_latest hr).1
  · exact Sql.length_filter_latest_le _ _ _
  · intro target r hlast hyoung
    have hstored : Ticking s.stored := List.Pairwise.sublist (stored_sublist hwf) hticking
    have hleft := hsublist.filter fun r => decide (r.target = target)
    obtain ⟨hr, htarget⟩ := List.mem_filter.mp (List.mem_of_getLast? hlast)
    have hkept : r ∈ s.tables.latency := by
      have hmem : r ∈ s.stored.filter fun r => decide (horizon ≤ r.ts) :=
        List.mem_filter.mpr ⟨hr, decide_eq_true hyoung⟩
      rw [← hrecent] at hmem
      exact List.mem_of_mem_filter hmem
    refine Sql.filter_latest_of_increasing ((hstored.filter target).sublist hleft) ?_
    exact Sql.getLast?_of_sublist hleft (hstored.filter target) hlast
      (List.mem_filter.mpr ⟨hkept, htarget⟩)

/-- Nothing is missing where nothing is on its way, counted as dropped, or gone with a batch. -/
theorem stored_eq_measured {acts : List (WriterAct ι)} (hcommits : Along step Commits acts {})
    (hidle : (run step acts {}).inFlight = [])
    (hroom : (run step acts {}).dropped.monitoring = 0) :
    (run step acts {}).stored = (run step acts {}).measured := by
  have hcounter : ∀ op, (latencyKind.sent op).isSome = true → op.counter = .monitoring := by
    intro op hsome
    cases op with
    | latency => rfl
    | query | iface | alert | device => cases hsome
  refine latencyKind.committed_eq_sent hcounter hroom ?_ ?_
  · rw [hidle]
    rfl
  · rw [(discardedBy_eq_nil_iff acts wf_start).mpr hcommits]
    rfl

end Pipeline

end Db

namespace Monitor

/-! ### The sampler -/

/-- What a turn measures. -/
def Turn.rows (upstream : SocketAddr) (turn : Turn) : List Db.LatencyRecord :=
  (turn.ops upstream).filterMap Db.WriteOp.measurement

theorem Turn.rows_eq (upstream : SocketAddr) (turn : Turn) :
    turn.rows upstream =
      (turn.gateway.map (Db.LatencyRecord.mk turn.ts "gateway".toList)).toList ++
        ((turn.probe upstream 2500).map
          (Db.LatencyRecord.mk turn.ts "upstream".toList)).toList := by
  rw [rows, ops, List.filterMap_append]
  cases turn.gateway <;> cases turn.probe upstream 2500 <;> rfl

theorem Turn.ts_of_mem_rows {upstream : SocketAddr} {turn : Turn} {r : Db.LatencyRecord}
    (h : r ∈ turn.rows upstream) : r.ts = turn.ts := by
  rw [rows_eq] at h
  obtain h | h := List.mem_append.mp h
  · obtain ⟨ms, -, rfl⟩ := Option.map_eq_some_iff.mp (Option.mem_toList.mp h)
    rfl
  · obtain ⟨ms, -, rfl⟩ := Option.map_eq_some_iff.mp (Option.mem_toList.mp h)
    rfl

/-- A turn measures each target at most once. -/
theorem Turn.ticking_rows (upstream : SocketAddr) (turn : Turn) :
    Db.Pipeline.Ticking (turn.rows upstream) := by
  have hne : "gateway".toList ≠ "upstream".toList := by decide
  rw [rows_eq]
  cases turn.gateway with
  | none => cases turn.probe upstream 2500 <;> simp [Db.Pipeline.Ticking]
  | some ms =>
    cases turn.probe upstream 2500 with
    | none => exact List.pairwise_singleton _ _
    | some ms' => exact List.pairwise_pair.mpr fun heq => absurd heq hne

theorem ticking_turns (upstream : SocketAddr) {turns : List Turn}
    (hclock : turns.Pairwise fun turn turn' => turn.ts < turn'.ts) :
    Db.Pipeline.Ticking (turns.flatMap (Turn.rows upstream)) := by
  refine List.pairwise_flatMap.mpr ⟨fun turn _ => turn.ticking_rows upstream, hclock.imp ?_⟩
  intro turn turn' hlt r hr r' hr' _
  rw [Turn.ts_of_mem_rows hr, Turn.ts_of_mem_rows hr']
  exact hlt

/-- Whatever the probes give, whatever else is written, whatever is dropped, fails or is pruned,
and however far the sampler is in its turn. -/
theorem latest_run {ι : Type} (acts : List (Db.WriterAct ι)) {upstream : SocketAddr}
    {turns : List Turn} (hclock : turns.Pairwise fun turn turn' => turn.ts < turn'.ts)
    (hsampler : (run Db.Pipeline.step acts {}).measured <+: turns.flatMap (Turn.rows upstream))
    {horizon : ℤ}
    (hspares : ∀ e ∈ (run Db.Pipeline.step acts {}).history, e.SparesSince horizon) :
    (run Db.Pipeline.step acts {}).UpToDate horizon ∧
      (Along Db.Pipeline.step Db.Pipeline.Commits acts {} →
        (run Db.Pipeline.step acts {}).inFlight = [] →
          (run Db.Pipeline.step acts {}).dropped.monitoring = 0 →
            (run Db.Pipeline.step acts {}).stored = (run Db.Pipeline.step acts {}).measured) := by
  have hwf : (run Db.Pipeline.step acts {}).Wf :=
    run_invariant Db.Pipeline.wf_step acts Db.Pipeline.wf_start
  have hticking := List.Pairwise.sublist hsampler.sublist (ticking_turns upstream hclock)
  exact ⟨Db.Pipeline.upToDate hwf hspares hticking, Db.Pipeline.stored_eq_measured⟩

/-- The router answers on port 80 only. -/
def eveningTurn (ts : ℤ) (ms : Float) : Turn where
  ts := ts
  routes := some "\ne 00000000 0101A8C0 3 0 0 0 0".toList
  probe addr _ := if addr.port = 80 then some ms else none

theorem rows_eveningTurn (upstream : SocketAddr) (hport : upstream.port ≠ 80) (ts : ℤ)
    (ms : Float) : (eveningTurn ts ms).rows upstream = [⟨ts, "gateway".toList, ms⟩] := by
  have hroute : ((eveningTurn ts ms).routes.bind Netinfo.parseDefaultRoute).isSome = true := by
    show (Netinfo.parseDefaultRoute "\ne 00000000 0101A8C0 3 0 0 0 0".toList).isSome = true
    decide +kernel
  obtain ⟨route, hroute⟩ := Option.isSome_iff_exists.mp hroute
  have hgateway : (eveningTurn ts ms).gateway = some ms := by
    rw [Turn.gateway, hroute]
    rfl
  have hupstream : (eveningTurn ts ms).probe upstream 2500 = none := if_neg hport
  rw [Turn.rows_eq, hgateway, hupstream]
  rfl

def publicUpstream : SocketAddr := ⟨.v4 (Ipv4Addr.ofOctets 1 1 1 1), 53⟩

/-- The second measurement is committed after a prune, and the third is on its way. -/
def evening : List (Db.WriterAct Unit) :=
  [.send () (.latency 100 "gateway".toList 1.5), .receive, .deadline, .flush fun _ => false,
    .prune 160 30 4, .send () (.latency 160 "gateway".toList 2.5), .receive, .deadline,
    .flush fun _ => false, .send () (.latency 220 "gateway".toList 3.5), .receive]

theorem latest_run_evening :
    (run Db.Pipeline.step evening {}).UpToDate 0 ∧
      (Along Db.Pipeline.step Db.Pipeline.Commits evening {} →
        (run Db.Pipeline.step evening {}).inFlight = [] →
          (run Db.Pipeline.step evening {}).dropped.monitoring = 0 →
            (run Db.Pipeline.step evening {}).stored =
              (run Db.Pipeline.step evening {}).measured) := by
  have hmeasured : (run Db.Pipeline.step evening {}).measured =
      [eveningTurn 100 1.5, eveningTurn 160 2.5, eveningTurn 220 3.5].flatMap
        (Turn.rows publicUpstream) := by
    simp only [List.flatMap_cons, List.flatMap_nil, rows_eveningTurn publicUpstream (by decide)]
    rfl
  have hclock : [eveningTurn 100 1.5, eveningTurn 160 2.5, eveningTurn 220 3.5].Pairwise
      fun turn turn' => turn.ts < turn'.ts := by
    simp [eveningTurn]
  have hsampler : (run Db.Pipeline.step evening {}).measured <+:
      [eveningTurn 100 1.5, eveningTurn 160 2.5, eveningTurn 220 3.5].flatMap
        (Turn.rows publicUpstream) := hmeasured ▸ List.prefix_refl _
  have hhistory : (run Db.Pipeline.step evening {}).history =
      [.batch [⟨(), 0, .latency 100 "gateway".toList 1.5⟩], .pruned 160 30 4,
        .batch [⟨(), 1, .latency 160 "gateway".toList 2.5⟩]] := rfl
  refine latest_run evening hclock hsampler ?_
  rw [hhistory]
  simp [Db.Entry.SparesSince]

end Monitor

end Netwatch
