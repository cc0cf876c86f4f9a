import Netwatch.Alerts.Delivery
import Netwatch.Dns.Status

/-!
# The counters and the query log

The events of the resolver go to the writer, beside the ops of the other producers, and become
rows of the query log. The status page shows the counters and the other pages show the rows;
what is between them is on its way, was dropped and counted as such, or went with a failed flush.

## Main definitions

- `Ledger` — the DNS server and the writer
- `Balanced` — the counters against the rows

## Main results

- `balanced_run` — in any run
-/

namespace Netwatch.Dns

open RustStd Hickory Interleaving Db

/-- The row of an event, but for its number. -/
def recordOf (e : QueryEvent) : QueryRecord where
  id := 0
  ts := e.ts
  clientIp := e.clientIp
  domain := e.domain
  qtype := e.qtype
  status := e.status.asStr
  elapsedMs := e.elapsedMs
  answer := e.answer
  blocklist := e.blocklist

def recordOfOp : WriteOp → Option QueryRecord
  | .query e => some (recordOf e)
  | _ => none

/-- The query log without the numbers of its rows. -/
def queryRows (t : Tables) : List QueryRecord := t.queries.rows.map fun q => { q with id := 0 }

theorem queryRows_execute (t : Tables) (op : WriteOp) :
    queryRows (t.execute op) = queryRows t ++ (recordOfOp op).toList := by
  cases op with
  | query e =>
    show (t.queries.rows ++ [_]).map _ = _
    rw [List.map_append]
    rfl
  | device d =>
    refine Eq.trans ?_ (List.append_nil _).symm
    cases d with
    | mk mac ip => cases ip <;> rfl
  | iface sample => exact (List.append_nil _).symm
  | latency ts target ms => exact (List.append_nil _).symm
  | alert ts kind severity subject detail notified => exact (List.append_nil _).symm

/-- The queries are the first that a prune deletes. -/
theorem queryRows_prune (now : ℤ) (retentionDays done : ℕ) (t : Tables) :
    queryRows (prune now retentionDays done t) = queryRows t ∨
      queryRows (prune now retentionDays done t) =
        (queryRows t).filter fun q => now - retentionDays * 86400 ≤ q.ts := by
  have hdeleted : (t.queries.rows.filter fun q => ¬ q.ts < now - retentionDays * 86400).map
      (fun q => { q with id := 0 }) =
        (queryRows t).filter fun q => now - retentionDays * 86400 ≤ q.ts := by
    rw [queryRows, List.filter_map]
    congr 1
    refine List.filter_congr fun q _ => ?_
    show decide (¬ q.ts < now - retentionDays * 86400) = decide (_ ≤ q.ts)
    rw [decide_eq_decide, not_lt]
  rcases done with _ | _ | _ | _ | done
  · exact .inl rfl
  · exact .inr hdeleted
  · exact .inr hdeleted
  · exact .inr hdeleted
  · right
    rw [prune, List.take_of_length_le (by simp)]
    exact hdeleted

/-- The queries are rows that are appended. -/
def queryKind : RowKind QueryRecord where
  rows := queryRows
  sent := recordOfOp
  keeps now retentionDays q := now - retentionDays * 86400 ≤ q.ts
  fresh := rfl
  execute := queryRows_execute
  prune := queryRows_prune

theorem countedBy_queryKind : queryKind.CountedBy .queries := by
  intro op
  cases op <;> simp [queryKind, recordOfOp, WriteOp.counter]

/-- The servers and the pipeline to the database, which is given by what has been done to it. -/
structure Ledger (ι : Type) where
  server : Server
  writes : List (WriterAct (Option ι)) := []
  /-- The requests that were counted and will not be logged. -/
  missing : List Lost := []

inductive Move (ι : Type)
  | dns (e : Event)
  /-- Only the resolver sends queries to the writer. -/
  | other (producer : ι) (op : { op : WriteOp // op.counter ≠ .queries })
  | thread (a : { a : WriterAct (Option ι) // Alerts.OfThread a })

namespace Ledger

variable {ι : Type}

def pipeline (s : Ledger ι) : Pipeline (Option ι) := run Pipeline.step s.writes {}

/-- What an event of the servers logs is handed to the writer. -/
def step (r : Resolver) (codec : Codec) (m : Move ι) (s : Ledger ι) : Ledger ι :=
  match m with
  | .dns e =>
    let server := Dns.step r codec e s.server
    -- the log only grows
    let logged := server.log.drop s.server.log.length
    { server
      writes := s.writes ++ (logged.map WriteOp.query).map (.send none)
      missing := s.missing ++ (lost codec e s.server).toList }
  | .other producer op => { s with writes := s.writes ++ [.send (some producer) op.1] }
  | .thread a => { s with writes := s.writes ++ [a.1] }

end Ledger

/-- The counters against the query log. -/
structure Balanced {ι : Type} (s : Ledger ι) : Prop where
  /-- A row stands for a request that was logged, and the rows have the order of the log. -/
  genuine : (queryRows s.pipeline.tables ++ queryKind.handed s.pipeline.inFlight).Sublist
    (s.server.log.map recordOf)
  /-- What has been committed stays until it is old enough to be pruned. -/
  kept : ∀ cutoff : ℤ, (∀ now retentionDays done,
      Entry.pruned now retentionDays done ∈ s.pipeline.history →
        now - retentionDays * 86400 ≤ cutoff) →
    ((queryRows s.pipeline.tables).filter fun q => cutoff ≤ q.ts) =
      (queryKind.handed s.pipeline.committed).filter fun q => cutoff ≤ q.ts
  blocked : ((queryRows s.pipeline.tables).countP fun q => q.status = "blocked".toList) ≤
    s.server.shared.stats.blocked
  cached : ((queryRows s.pipeline.tables).countP fun q => q.status = "cached".toList) ≤
    s.server.shared.stats.cacheHits
  /-- A request that was counted is committed, on its way, dropped, discarded, timed out, waiting,
  or will not be logged. -/
  total : s.server.shared.stats.total =
    (queryKind.handed s.pipeline.committed).length +
      (queryKind.handed s.pipeline.inFlight).length + s.pipeline.dropped.queries +
        (queryKind.handed (Pipeline.discardedBy s.writes {})).length +
          s.server.shared.stats.requestTimeouts + waiting s.server.tasks + s.missing.length
  /-- If nothing of this has happened, everything has been committed. -/
  complete : s.pipeline.dropped.queries = 0 → queryKind.handed s.pipeline.inFlight = [] →
    queryKind.handed (Pipeline.discardedBy s.writes {}) = [] →
      queryKind.handed s.pipeline.committed = s.server.log.map recordOf

/-! ### One step -/

section Steps

variable {ι : Type} {r : Resolver} {codec : Codec}

/-- What has been handed to the writer of queries is what has been logged. -/
structure Posted (r : Resolver) (codec : Codec) (s : Ledger ι) : Prop where
  sound : Sound r codec s.server
  agree : Agree s.server s.missing
  isOpen : s.pipeline.producersGone = false
  sent : queryKind.handed s.pipeline.sent = s.server.log.map recordOf

theorem log_prefix_step {s : Server} (hsound : Sound r codec s) (e : Event) :
    s.log <+: (step r codec e s).log := by
  have hchange := change_step hsound e
  generalize step r codec e s = s' at hchange
  cases hchange with
  | decided htask ho hends =>
    rw [(log_reply r codec s _ _ _ _ _).2]
    exact List.prefix_append _ _
  | woken htask ho hends =>
    rw [(log_reply r codec s _ _ _ _ _).2]
    exact List.prefix_append _ _
  | quiet | denied | full | datagram | connection | frame | suspended | dropped =>
    exact List.prefix_rfl

theorem posted_dns {s : Ledger ι} (h : Posted r codec s) (e : Event) :
    Posted r codec (s.step r codec (.dns e)) := by
  -- the log grows by what the writer is handed
  obtain ⟨logged, hlog⟩ := log_prefix_step h.sound e
  have hdrop : (step r codec e s.server).log.drop s.server.log.length = logged := by
    rw [← hlog, List.drop_left]
  obtain ⟨hopen, hsent⟩ :=
    queryKind.handed_sends h.isOpen (none : Option ι) (logged.map WriteOp.query)
  have hpipeline : (s.step r codec (.dns e)).pipeline =
      run Pipeline.step ((logged.map WriteOp.query).map (.send none)) s.pipeline := by
    rw [Ledger.step, Ledger.pipeline, hdrop, run_append]
    rfl
  refine ⟨sound_step h.sound e, agree_step h.sound h.agree e, ?_, ?_⟩
  · rw [hpipeline]
    exact hopen
  · rw [hpipeline, hsent, h.sent, List.filterMap_map]
    show _ = List.map recordOf (step r codec e s.server).log
    rw [← hlog, List.map_append]
    congr 1
    show logged.filterMap (some ∘ recordOf) = logged.map recordOf
    rw [List.filterMap_eq_map]

theorem posted_other {s : Ledger ι} (h : Posted r codec s) (producer : ι)
    (op : { op : WriteOp // op.counter ≠ .queries }) :
    Posted r codec (s.step r codec (.other producer op)) := by
  obtain ⟨op, hop⟩ := op
  obtain ⟨hopen, hsent⟩ := queryKind.handed_send h.isOpen (some producer) op
  have hnone : queryKind.sent op = none := countedBy_queryKind.sent_of_ne hop
  refine { h with isOpen := ?_, sent := ?_ }
  · rw [Ledger.step, Ledger.pipeline, Alerts.run_concat]
    exact hopen
  · rw [Ledger.step, Ledger.pipeline, Alerts.run_concat]
    refine hsent.trans ?_
    rw [hnone, Option.toList_none, List.append_nil]
    exact h.sent

theorem posted_thread {s : Ledger ι} (h : Posted r codec s)
    (a : { a : WriterAct (Option ι) // Alerts.OfThread a }) :
    Posted r codec (s.step r codec (.thread a)) := by
  obtain ⟨a, ha⟩ := a
  obtain ⟨hopen, hsent⟩ := Alerts.sent_thread ha s.pipeline
  refine { h with isOpen := ?_, sent := ?_ }
  · rw [Ledger.step, Ledger.pipeline, Alerts.run_concat]
    exact hopen.trans h.isOpen
  · rw [Ledger.step, Ledger.pipeline, Alerts.run_concat]
    show queryKind.handed (Pipeline.step a s.pipeline).sent = _
    rw [hsent]
    exact h.sent

theorem posted_step (m : Move ι) (s : Ledger ι) (h : Posted r codec s) :
    Posted r codec (s.step r codec m) := by
  cases m with
  | dns e => exact posted_dns h e
  | other producer op => exact posted_other h producer op
  | thread a => exact posted_thread h a

/-! ### What a status is counted by -/

theorem asStr_injective : Function.Injective QueryStatus.asStr := by
  intro status status' h
  cases status <;> cases status' <;> first | rfl | exact absurd h (by decide)

theorem Posted.countP_le {s : Ledger ι} (h : Posted r codec s) (status : QueryStatus) :
    ((queryRows s.pipeline.tables).countP fun q => q.status = status.asStr) ≤
      s.server.logged status := by
  have hwf : s.pipeline.Wf := run_invariant Pipeline.wf_step s.writes Pipeline.wf_start
  have hrows := (List.sublist_append_left _ _).trans (queryKind.sublist_sent hwf)
  rw [h.sent] at hrows
  refine hrows.countP_le.trans (le_of_eq ?_)
  rw [List.countP_map, Server.logged]
  refine List.countP_congr fun e _ => ?_
  rw [Function.comp_apply, decide_eq_true_iff, decide_eq_true_iff]
  exact asStr_injective.eq_iff

end Steps

/-! ### Runs -/

variable {ι : Type} {r : Resolver} {codec : Codec}

theorem Posted.balanced {s : Ledger ι} (h : Posted r codec s) : Balanced s := by
  have hwf : s.pipeline.Wf := run_invariant Pipeline.wf_step s.writes Pipeline.wf_start
  have hlength : s.server.log.length = (queryKind.handed s.pipeline.committed).length +
      (queryKind.handed s.pipeline.inFlight).length + s.pipeline.dropped.queries +
        (queryKind.handed (Pipeline.discardedBy s.writes {})).length := by
    rw [← List.length_map recordOf, ← h.sent]
    exact countedBy_queryKind.length_sent s.writes
  have hcounter : ∀ op, (queryKind.sent op).isSome = true → op.counter = .queries := fun op hsome =>
    of_decide_eq_true ((countedBy_queryKind op).symm.trans hsome)
  refine ⟨?_, fun cutoff hcutoff => ?_, ?_, ?_, ?_, fun hdropped hflying hdiscarded => ?_⟩
  · rw [← h.sent]
    exact queryKind.sublist_sent hwf
  · have hspares : queryKind.Spares (fun q => cutoff ≤ q.ts) s.pipeline.history :=
      fun now retentionDays done hmem q hq =>
        decide_eq_true ((hcutoff now retentionDays done hmem).trans (of_decide_eq_true hq))
    rw [hwf.whole]
    exact RowKind.filter_replay hspares
  · rw [h.agree.blocked]
    exact h.countP_le .blocked
  · rw [h.agree.cached]
    exact h.countP_le .cached
  · rw [h.agree.total, hlength]
  · rw [← h.sent]
    exact queryKind.committed_eq_sent hcounter hdropped hflying hdiscarded

/-- Whatever the servers, the other producers and the thread of the writer do, in whatever order. -/
theorem balanced_run (r : Resolver) (codec : Codec) (blocklist : Blocklist) (cache : Cache)
    (moves : List (Move ι)) :
    Balanced (run (Ledger.step r codec) moves { server := .start r blocklist cache }) := by
  have hstart : Posted r codec ({ server := .start r blocklist cache } : Ledger ι) :=
    ⟨sound_start r codec blocklist cache, ⟨rfl, rfl, le_rfl, rfl⟩, rfl, rfl⟩
  exact (run_invariant posted_step moves hstart).balanced

end Netwatch.Dns
