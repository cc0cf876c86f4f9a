import Netwatch.Db.Tables

/-!
# The write pipeline

`Writer::send` puts an op into a bounded channel or counts it as dropped; the writer thread
takes ops off the channel into a batch, until the batch is full or its deadline passes, and
flushes the batch in one transaction. Producers and the thread take their steps in any order.

## Main definitions

- `Pipeline` — the channel, the thread, the tables and the counters
- `Pipeline.step` — one step of a producer or of the thread
-/

namespace Netwatch.Db

open RustStd

/-- Capacity of the channel. -/
def queueDepth : ℕ := 8192

/-- Ops in one transaction at most. -/
def batchSize : ℕ := 512

inductive Counter
  | queries
  | devices
  | monitoring
  | alerts
  deriving DecidableEq

/-- Which kind was lost matters: dropped queries mean an incomplete log, dropped device rows
only mean staler names. -/
def WriteOp.counter : WriteOp → Counter
  | .query _ => .queries
  | .device _ => .devices
  | .iface _ => .monitoring
  | .latency _ _ _ => .monitoring
  | .alert _ _ _ _ _ _ => .alerts

structure DropCounts where
  queries : ℕ := 0
  devices : ℕ := 0
  monitoring : ℕ := 0
  alerts : ℕ := 0
  deriving DecidableEq

namespace DropCounts

def get (d : DropCounts) : Counter → ℕ
  | .queries => d.queries
  | .devices => d.devices
  | .monitoring => d.monitoring
  | .alerts => d.alerts

/-- `counter.fetch_add(1)` -/
def add (d : DropCounts) : Counter → DropCounts
  | .queries => { d with queries := d.queries + 1 }
  | .devices => { d with devices := d.devices + 1 }
  | .monitoring => { d with monitoring := d.monitoring + 1 }
  | .alerts => { d with alerts := d.alerts + 1 }

theorem get_add (d : DropCounts) (k k' : Counter) :
    (d.add k).get k' = d.get k' + if k = k' then 1 else 0 := by
  cases k <;> cases k' <;> rfl

end DropCounts

/-- An op as it was handed to `send`: by whom, and as the how many-th of all. -/
structure Handed (ι : Type) where
  producer : ι
  seq : ℕ
  op : WriteOp

inductive Phase
  /-- blocked in `rx.recv()` -/
  | receiving
  /-- in the loop around `rx.recv_timeout` -/
  | draining
  /-- the batch is complete -/
  | flushing
  | stopped
  deriving DecidableEq

/-- What has been done to the tables for good. -/
inductive Entry (ι : Type)
  | batch (ops : List (Handed ι))
  | pruned (now : ℤ) (retentionDays done : ℕ)

structure Pipeline (ι : Type) where
  queue : List (Handed ι) := []
  pending : List (Handed ι) := []
  phase : Phase := .receiving
  /-- Every `Writer` has been dropped. -/
  producersGone : Bool := false
  dropped : DropCounts := {}
  tables : Tables := .fresh
  /-- What producers have handed over, in that order. -/
  sent : List (Handed ι) := []
  /-- What the thread has committed, in that order. -/
  history : List (Entry ι) := []

inductive WriterAct (ι : Type)
  | send (producer : ι) (op : WriteOp)
  | hangUp
  | receive
  /-- `recv_timeout` gives up, or the deadline has passed. -/
  | deadline
  /-- `fails` tells which step of the transaction returns an error. -/
  | flush (fails : ℕ → Bool)
  | prune (now : ℤ) (retentionDays done : ℕ)

namespace Pipeline

variable {ι : Type}

/-- `pending.push(op)`, and whether the batch takes more. -/
def push (s : Pipeline ι) (h : Handed ι) (rest : List (Handed ι)) : Pipeline ι :=
  { s with
    queue := rest
    pending := s.pending ++ [h]
    phase := if s.pending.length + 1 < batchSize then .draining else .flushing }

/-- `Writer::send`, which never blocks. -/
def send (producer : ι) (op : WriteOp) (s : Pipeline ι) : Pipeline ι :=
  let h : Handed ι := ⟨producer, s.sent.length, op⟩
  if s.queue.length < queueDepth then
    { s with queue := s.queue ++ [h], sent := s.sent ++ [h] }
  else { s with dropped := s.dropped.add op.counter, sent := s.sent ++ [h] }

def receive (s : Pipeline ι) : Pipeline ι :=
  match s.phase, s.queue with
  | .receiving, [] => if s.producersGone then { s with phase := .stopped } else s
  | .receiving, h :: rest => s.push h rest
  | .draining, h :: rest => s.push h rest
  | _, _ => s

/-- The batch is flushed and cleared, whatever became of the flush. -/
def flushBatch (fails : ℕ → Bool) (s : Pipeline ι) : Pipeline ι :=
  let flushed := flush fails s.tables (s.pending.map Handed.op)
  { s with
    pending := []
    phase := .receiving
    tables := flushed.2
    history := if flushed.1 then s.history ++ [.batch s.pending] else s.history }

def step : WriterAct ι → Pipeline ι → Pipeline ι
  | .send producer op, s => if s.producersGone then s else s.send producer op
  | .hangUp, s => { s with producersGone := true }
  | .receive, s => s.receive
  | .deadline, s => if s.phase = .draining then { s with phase := .flushing } else s
  | .flush fails, s => if s.phase = .flushing then s.flushBatch fails else s
  | .prune now retentionDays done, s =>
    if s.phase = .receiving then
      { s with
        tables := prune now retentionDays done s.tables
        history := s.history ++ [.pruned now retentionDays done] }
    else s

end Pipeline

def Entry.ops {ι : Type} : Entry ι → List (Handed ι)
  | batch ops => ops
  | pruned _ _ _ => []

def Entry.apply {ι : Type} (t : Tables) : Entry ι → Tables
  | batch ops => t.executeAll (ops.map Handed.op)
  | pruned now retentionDays done => prune now retentionDays done t

end Netwatch.Db
