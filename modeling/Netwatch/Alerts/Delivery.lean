import Netwatch.Alerts.Queue
import Netwatch.Db.RowKind

/-!
# The delivery of alerts

The task of `spawn` takes one alert at a time from the queue, posts it to ntfy if it is set up to,
and then hands it to the writer, whatever became of the post. Whoever raises alerts, the other
producers of the database and the writer's thread go on meanwhile.

## Main definitions

- `Notifier` — what the task has been given by the configuration
- `Desk` — the queue, the task and the pipeline to the database
- `Delivered` — what became of every alert that found room in the queue

## Main results

- `delivered_run` — in every run, whatever ntfy answers and whichever flush fails
-/

namespace Netwatch.Alerts

open RustStd Interleaving

namespace Severity

def asStr : Severity → Str
  | .info => "info".toList
  | .warning => "warning".toList

/-- On the scale of ntfy. -/
def ntfyPriority : Severity → Str
  | .info => "3".toList
  | .warning => "4".toList

def ntfyTag : Severity → Str
  | .info => "bulb".toList
  | .warning => "warning".toList

end Severity

/-- A request to ntfy. -/
structure Push where
  url : Str
  title : Str
  priority : Str
  tags : Str
  body : Str
  deriving DecidableEq

structure Notifier where
  ntfyUrl : Str
  /-- There is an HTTP client. -/
  client : Bool

/-- `built` tells whether the HTTP client can be built. -/
def buildClient (ntfyUrl : Str) (built : Bool) : Bool := ntfyUrl ≠ [] && built

def notifier (cfg : AlertConfig) (built : Bool) : Notifier :=
  let ntfyUrl := Str.trim cfg.ntfyUrl
  ⟨ntfyUrl, buildClient ntfyUrl built⟩

namespace Notifier

def push (n : Notifier) (alert : Alert) : Push where
  url := n.ntfyUrl
  title := alert.title
  priority := alert.severity.ntfyPriority
  tags := alert.severity.ntfyTag
  body := alert.detail

/-- A status code, unless the request fails. -/
def accepted (response : Option ℕ) : Bool := response.any fun status => 200 ≤ status && status < 300

/-- The op for an alert whose post got that response. -/
def op (n : Notifier) (alert : Alert) (response : Option ℕ) (ts : ℤ) : Db.WriteOp :=
  .alert ts alert.kind alert.severity.asStr alert.subject alert.detail
    (n.client && accepted response)

end Notifier

/-- An alert that has been handed to the writer. -/
structure Done where
  alert : Alert
  response : Option ℕ
  ts : ℤ

/-- The pipeline to the database is given by what has been done to it. -/
structure Desk (ι : Type) where
  sink : AlertSink
  /-- The alert that the task is about to hand on. -/
  inHand : Option Alert := none
  writes : List (Db.WriterAct (Option ι)) := []
  /-- Alerts that have found room in the queue. -/
  entered : List Alert := []
  pushes : List Push := []
  done : List Done := []

def Desk.pipeline {ι : Type} (d : Desk ι) : Db.Pipeline (Option ι) :=
  run Db.Pipeline.step d.writes {}

/-- The steps of the writer's thread. The task keeps a `Writer`, so that the channel stays open. -/
def OfThread {ι : Type} : Db.WriterAct ι → Prop
  | .send _ _ | .hangUp => False
  | .receive | .deadline | .flush _ | .prune _ _ _ => True

inductive Act (ι : Type)
  | raise (alert : Alert) (now : ℕ)
  | take
  /-- The post is over, or there was none. -/
  | answered (response : Option ℕ) (ts : ℤ)
  /-- Only the task sends alerts to the writer. -/
  | other (producer : ι) (op : { op : Db.WriteOp // op.counter ≠ .alerts })
  | thread (a : { a : Db.WriterAct (Option ι) // OfThread a })

namespace Desk

variable {ι : Type}

instance (sink : AlertSink) (alert : Alert) (now : ℕ) :
    Decidable (sink.Enters queueDepth alert now) :=
  inferInstanceAs (Decidable (_ = _))

def raise (alert : Alert) (now : ℕ) (d : Desk ι) : Desk ι :=
  { d with
    sink := d.sink.raiseWithin queueDepth alert now
    entered := if d.sink.Enters queueDepth alert now then d.entered ++ [alert] else d.entered }

/-- `rx.recv().await`, and the post that follows. -/
def take (n : Notifier) (d : Desk ι) : Desk ι :=
  match d.inHand, d.sink.recv with
  | none, (some alert, sink) =>
    { d with
      sink
      inHand := some alert
      pushes := if n.client then d.pushes ++ [n.push alert] else d.pushes }
  | _, _ => d

def answered (n : Notifier) (response : Option ℕ) (ts : ℤ) (d : Desk ι) : Desk ι :=
  match d.inHand with
  | some alert =>
    { d with
      inHand := none
      writes := d.writes ++ [.send none (n.op alert response ts)]
      done := d.done ++ [⟨alert, response, ts⟩] }
  | none => d

def step (n : Notifier) : Act ι → Desk ι → Desk ι
  | .raise alert now, d => d.raise alert now
  | .take, d => d.take n
  | .answered response ts, d => d.answered n response ts
  | .other producer op, d => { d with writes := d.writes ++ [.send (some producer) op] }
  | .thread a, d => { d with writes := d.writes ++ [a.1] }

end Desk

/-- An alert as the database has it. -/
structure Note where
  ts : ℤ
  kind : Str
  severity : Str
  subject : Str
  detail : Str
  notified : Bool

def noteOfRow (row : Db.AlertRow) : Note :=
  ⟨row.ts, row.kind, row.severity, row.subject, row.detail, row.notified⟩

def noteOfOp : Db.WriteOp → Option Note
  | .alert ts kind severity subject detail notified =>
    some ⟨ts, kind, severity, subject, detail, notified⟩
  | _ => none

def Done.note (n : Notifier) (d : Done) : Note :=
  ⟨d.ts, d.alert.kind, d.alert.severity.asStr, d.alert.subject, d.alert.detail,
    n.client && Notifier.accepted d.response⟩

/-- The alerts in the tables. -/
def rowNotes (t : Db.Tables) : List Note := t.alerts.rows.map noteOfRow

/-- The alerts among what has been handed to the writer. -/
def notes {ι : Type} (handed : List (Db.Handed ι)) : List Note :=
  handed.filterMap fun h => noteOfOp h.op

/-- What became of the alerts that found room in the queue. -/
structure Delivered {ι : Type} (n : Notifier) (d : Desk ι) : Prop where
  /-- They are handed on one by one, in their order. -/
  fifo : d.entered = d.done.map Done.alert ++ d.inHand.toList ++ d.sink.queue
  /-- With a client each is posted once, whatever came of the posts before. -/
  posted : d.pushes =
    if n.client then (d.done.map Done.alert ++ d.inHand.toList).map n.push else []
  /-- The tables show nothing else, and in the order of the queue. -/
  stored : (rowNotes d.pipeline.tables ++ notes d.pipeline.inFlight).Sublist
    (d.done.map (Done.note n))
  /-- What has been committed stays until it is old enough to be pruned. -/
  kept : ∀ cutoff : ℤ, (∀ now retentionDays done,
      Db.Entry.pruned now retentionDays done ∈ d.pipeline.history →
        now - Db.alertRetentionDays * 86400 ≤ cutoff) →
    ((rowNotes d.pipeline.tables).filter fun a => cutoff ≤ a.ts) =
      (notes d.pipeline.committed).filter fun a => cutoff ≤ a.ts
  /-- What is not committed is on its way, counted as dropped, or went with a failed flush. -/
  counted : d.done.length = (notes d.pipeline.committed).length +
    (notes d.pipeline.inFlight).length + d.pipeline.dropped.alerts +
      (notes (Db.Pipeline.discardedBy d.writes {})).length

/-! ### The tables -/

theorem rowNotes_execute (t : Db.Tables) (op : Db.WriteOp) :
    rowNotes (t.execute op) = rowNotes t ++ (noteOfOp op).toList := by
  cases op with
  | alert ts kind severity subject detail notified =>
    show (t.alerts.rows ++ [_]).map noteOfRow = _
    rw [List.map_append]
    rfl
  | device d =>
    refine Eq.trans ?_ (List.append_nil _).symm
    cases d with
    | mk mac ip => cases ip <;> rfl
  | query e => exact (List.append_nil _).symm
  | iface sample => exact (List.append_nil _).symm
  | latency ts target ms => exact (List.append_nil _).symm

/-- Either the alerts are not reached, or the old ones are deleted. -/
theorem rowNotes_prune (now : ℤ) (retentionDays done : ℕ) (t : Db.Tables) :
    rowNotes (Db.prune now retentionDays done t) = rowNotes t ∨
      rowNotes (Db.prune now retentionDays done t) =
        (rowNotes t).filter fun a => now - Db.alertRetentionDays * 86400 ≤ a.ts := by
  rcases done with _ | _ | _ | _ | done
  · exact .inl rfl
  · exact .inl rfl
  · exact .inl rfl
  · exact .inl rfl
  · refine .inr ?_
    simp only [Db.prune, List.take_succ_cons, List.take_nil]
    rw [rowNotes, rowNotes, List.filter_map]
    show (t.alerts.rows.filter _).map noteOfRow = _
    congr 1
    refine List.filter_congr fun a _ => ?_
    show decide (¬ a.ts < now - Db.alertRetentionDays * 86400) = decide (_ ≤ a.ts)
    rw [decide_eq_decide, not_lt]

/-- The alerts are rows that are appended. -/
def alertKind : Db.RowKind Note where
  rows := rowNotes
  sent := noteOfOp
  keeps now _ a := now - Db.alertRetentionDays * 86400 ≤ a.ts
  fresh := rfl
  execute := rowNotes_execute
  prune := rowNotes_prune

theorem countedBy_alertKind : alertKind.CountedBy .alerts := by
  intro op
  cases op <;> simp [alertKind, noteOfOp, Db.WriteOp.counter]

/-! ### One step -/

variable {ι : Type} {n : Notifier}

/-- The task and the queue, and the alerts among what the task has sent. -/
structure Steady (n : Notifier) (d : Desk ι) : Prop where
  fifo : d.entered = d.done.map Done.alert ++ d.inHand.toList ++ d.sink.queue
  posted : d.pushes =
    if n.client then (d.done.map Done.alert ++ d.inHand.toList).map n.push else []
  isOpen : d.pipeline.producersGone = false
  sent : notes d.pipeline.sent = d.done.map (Done.note n)

theorem run_concat (writes : List (Db.WriterAct ι)) (a : Db.WriterAct ι) (s : Db.Pipeline ι) :
    run Db.Pipeline.step (writes ++ [a]) s =
      Db.Pipeline.step a (run Db.Pipeline.step writes s) := run_append writes [a] s

theorem sent_thread {a : Db.WriterAct ι} (ha : OfThread a) (s : Db.Pipeline ι) :
    (Db.Pipeline.step a s).producersGone = s.producersGone ∧
      (Db.Pipeline.step a s).sent = s.sent := by
  cases a with
  | send producer op => exact ha.elim
  | hangUp => exact ha.elim
  | receive =>
    rw [Db.Pipeline.step, Db.Pipeline.receive]
    split
    · split <;> exact ⟨rfl, rfl⟩
    · exact ⟨rfl, rfl⟩
    · exact ⟨rfl, rfl⟩
    · exact ⟨rfl, rfl⟩
  | deadline =>
    rw [Db.Pipeline.step]
    split <;> exact ⟨rfl, rfl⟩
  | flush fails =>
    rw [Db.Pipeline.step]
    split <;> exact ⟨rfl, rfl⟩
  | prune now retentionDays done =>
    rw [Db.Pipeline.step]
    split <;> exact ⟨rfl, rfl⟩

theorem queue_of_not_enters {alert : Alert} {now : ℕ} {sink : AlertSink}
    (h : ¬ sink.Enters queueDepth alert now) :
    (sink.raiseWithin queueDepth alert now).queue = sink.queue := by
  rw [AlertSink.enters_iff] at h
  by_cases hfree : sink.Free alert.key now
  · exact AlertSink.queue_raiseWithin_of_full (not_lt.mp fun hroom => h ⟨hfree, hroom⟩) alert now
  · rw [raiseWithin_of_not_free hfree]

theorem steady_raise {d : Desk ι} (h : Steady n d) (alert : Alert) (now : ℕ) :
    Steady n (d.raise alert now) := by
  refine { h with fifo := ?_ }
  rw [Desk.raise]
  dsimp only
  by_cases henters : d.sink.Enters queueDepth alert now
  · rw [if_pos henters, h.fifo, List.append_assoc _ d.sink.queue]
    exact congrArg _ (Eq.symm henters)
  · rw [if_neg henters, queue_of_not_enters henters]
    exact h.fifo

theorem steady_take {d : Desk ι} (h : Steady n d) : Steady n (d.take n) := by
  rw [Desk.take]
  split
  · next alert sink hnone hrecv =>
    obtain ⟨hhead, rfl⟩ := Prod.mk.inj hrecv
    have hqueue : d.sink.queue = alert :: d.sink.queue.tail :=
      (List.cons_head?_tail hhead).symm
    refine ⟨?_, ?_, h.isOpen, h.sent⟩
    · show d.entered = d.done.map Done.alert ++ [alert] ++ d.sink.queue.tail
      rw [h.fifo, hnone, hqueue, Option.toList_none, List.append_nil, List.append_assoc]
      rfl
    · show (if n.client then d.pushes ++ [n.push alert] else d.pushes) =
        if n.client then (d.done.map Done.alert ++ [alert]).map n.push else []
      rw [h.posted, hnone, Option.toList_none, List.append_nil]
      split
      · rw [List.map_append, List.map_singleton]
      · rfl
  · exact h

theorem steady_answered {d : Desk ι} (h : Steady n d) (response : Option ℕ) (ts : ℤ) :
    Steady n (d.answered n response ts) := by
  rw [Desk.answered]
  split
  · next alert hsome =>
    have hdone : (d.done ++ [(⟨alert, response, ts⟩ : Done)]).map Done.alert ++
        (none : Option Alert).toList = d.done.map Done.alert ++ d.inHand.toList := by
      rw [hsome, List.map_append, Option.toList_none, List.append_nil]
      rfl
    obtain ⟨hopen, hsent⟩ :=
      alertKind.handed_send h.isOpen (none : Option ι) (n.op alert response ts)
    refine ⟨?_, ?_, ?_, ?_⟩
    · show d.entered = _ ++ d.sink.queue
      rw [hdone]
      exact h.fifo
    · show d.pushes = if n.client then List.map n.push _ else []
      rw [hdone]
      exact h.posted
    · rw [Desk.pipeline, run_concat]
      exact hopen
    · rw [Desk.pipeline, run_concat, List.map_append, ← h.sent]
      exact hsent
  · exact h

theorem steady_other {d : Desk ι} (h : Steady n d) (producer : ι)
    (op : { op : Db.WriteOp // op.counter ≠ .alerts }) :
    Steady n (d.step n (.other producer op)) := by
  obtain ⟨op, hop⟩ := op
  obtain ⟨hopen, hsent⟩ := alertKind.handed_send h.isOpen (some producer) op
  have hnone : alertKind.sent op = none := countedBy_alertKind.sent_of_ne hop
  refine { h with isOpen := ?_, sent := ?_ }
  · rw [Desk.step, Desk.pipeline, run_concat]
    exact hopen
  · rw [Desk.step, Desk.pipeline, run_concat]
    refine hsent.trans ?_
    rw [hnone, Option.toList_none, List.append_nil]
    exact h.sent

theorem steady_thread {d : Desk ι} (h : Steady n d)
    (a : { a : Db.WriterAct (Option ι) // OfThread a }) : Steady n (d.step n (.thread a)) := by
  obtain ⟨a, ha⟩ := a
  obtain ⟨hopen, hsent⟩ := sent_thread ha d.pipeline
  refine { h with isOpen := ?_, sent := ?_ }
  · rw [Desk.step, Desk.pipeline, run_concat]
    exact hopen.trans h.isOpen
  · rw [Desk.step, Desk.pipeline, run_concat]
    show notes (Db.Pipeline.step a d.pipeline).sent = _
    rw [hsent]
    exact h.sent

theorem steady_step (a : Act ι) (d : Desk ι) (h : Steady n d) : Steady n (d.step n a) := by
  cases a with
  | raise alert now => exact steady_raise h alert now
  | take => exact steady_take h
  | answered response ts => exact steady_answered h response ts
  | other producer op => exact steady_other h producer op
  | thread a => exact steady_thread h a

/-! ### Runs -/

theorem Steady.delivered {d : Desk ι} (h : Steady n d) : Delivered n d := by
  have hwf : d.pipeline.Wf := run_invariant Db.Pipeline.wf_step d.writes Db.Pipeline.wf_start
  refine ⟨h.fifo, h.posted, ?_, fun cutoff hcutoff => ?_, ?_⟩
  · rw [← h.sent]
    exact alertKind.sublist_sent hwf
  · have hspares : alertKind.Spares (fun a => cutoff ≤ a.ts) d.pipeline.history :=
      fun now retentionDays done hmem a ha =>
        decide_eq_true ((hcutoff now retentionDays done hmem).trans (of_decide_eq_true ha))
    rw [hwf.whole]
    exact Db.RowKind.filter_replay hspares
  · rw [← List.length_map (Done.note n), ← h.sent]
    exact countedBy_alertKind.length_sent d.writes

theorem delivered_run (cfg : AlertConfig) (built : Bool) {sink : AlertSink}
    (hspawn : spawn cfg = some sink) (acts : List (Act ι)) :
    Delivered (notifier cfg built)
      (run (Desk.step (notifier cfg built)) acts { sink : Desk ι }) := by
  have hqueue : sink.queue = [] := by
    rw [spawn, Option.ite_none_left_eq_some] at hspawn
    rw [← Option.some.inj hspawn.2]
  refine (run_invariant steady_step acts ?_).delivered
  refine ⟨?_, ?_, rfl, rfl⟩
  · exact hqueue.symm
  · split <;> rfl

/-- The topic is gone; the next alert is in the queue while the first one is posted. -/
def rejectedPush : List (Act Unit) :=
  [.raise (.newDevice "aa:bb:cc:00:00:01".toList none none) 0, .take,
    .raise (.nxdomainStorm "10.0.0.3".toList 80 10) 1, .answered (some 404) 1700000000,
    .thread ⟨.receive, trivial⟩, .thread ⟨.deadline, trivial⟩, .take,
    .thread ⟨.flush fun _ => false, trivial⟩]

theorem delivered_run_rejectedPush :
    Delivered (notifier { ntfyUrl := " https://ntfy.sh/some-private-topic".toList } true)
      (run (Desk.step (notifier { ntfyUrl := " https://ntfy.sh/some-private-topic".toList } true))
        rejectedPush { sink := .unused 3600000000000 }) :=
  delivered_run _ true rfl rejectedPush

end Netwatch.Alerts
