import Netwatch.Db.Writer
import Netwatch.Interleaving.Run

/-!
# Conservation of events

An op can be lost in two places, a full channel and a failed transaction, and only the first
is counted. Every step is described once by what it moves (`Moved`); the invariants of a run
and the account of what was lost follow from that.

## Main definitions

- `Pipeline.Conserved` — what became of every op
- `Pipeline.discardedBy` — the batches that went with a failed flush

## Main results

- `conserved_run` — every run accounts for every op, up to discarded batches
- `all_accounted_iff_commits` — nothing is discarded in exactly the runs in which every flush
  commits
-/

namespace Netwatch.Db.Pipeline

open RustStd Interleaving

variable {ι : Type}

/-- The ops of the committed batches, in the order of the commits. -/
def committed (s : Pipeline ι) : List (Handed ι) := s.history.flatMap Entry.ops

/-- The ops that are still on their way. -/
def inFlight (s : Pipeline ι) : List (Handed ι) := s.pending ++ s.queue

/-- `counted` are the ops that the drop counters stand for. -/
def Counts (s : Pipeline ι) (counted : List (Handed ι)) : Prop :=
  ∀ k, s.dropped.get k = counted.countP fun h => h.op.counter = k

/-- What became of every op, when the ops in `gone` went with failed flushes. -/
structure Conserved [DecidableEq ι] (s : Pipeline ι) (gone : List (Handed ι)) : Prop where
  /-- No two ops that were handed over are the same. -/
  distinct : s.sent.Nodup
  /-- Each is committed once, on its way, counted under its kind, or gone. -/
  accounted : ∃ counted, s.Counts counted ∧
    s.sent.Perm (s.committed ++ s.inFlight ++ counted ++ gone)
  /-- The tables hold whole batches and nothing else. -/
  whole : s.tables = s.history.foldl Entry.apply .fresh
  /-- What was committed from one producer was sent in that order. -/
  ordered : ∀ p, (s.committed.filter fun h => h.producer = p).Sublist
    (s.sent.filter fun h => h.producer = p)

/-! ### What one step moves -/

/-- A batch whose flush fails is cleared; its ops are logged as an error and not counted. -/
def discarded : WriterAct ι → Pipeline ι → List (Handed ι)
  | .flush fails, s =>
    if s.phase = .flushing ∧ (flush fails s.tables (s.pending.map Handed.op)).1 = false then
      s.pending
    else []
  | _, _ => []

/-- What a step does to the ops: hands one over, counts one as dropped, takes one off the
channel, commits the batch, loses the batch, or nothing. -/
inductive Moved (s s' : Pipeline ι) (gone : List (Handed ι)) : Prop
  | same (hgone : gone = []) (hsent : s'.sent = s.sent) (hcom : s'.committed = s.committed)
      (hfly : s'.inFlight = s.inFlight) (hdrop : s'.dropped = s.dropped)
  | queued (h : Handed ι) (hgone : gone = []) (hseq : h.seq = s.sent.length)
      (hsent : s'.sent = s.sent ++ [h]) (hcom : s'.committed = s.committed)
      (hfly : s'.inFlight = s.inFlight ++ [h]) (hdrop : s'.dropped = s.dropped)
  | refused (h : Handed ι) (hgone : gone = []) (hseq : h.seq = s.sent.length)
      (hsent : s'.sent = s.sent ++ [h]) (hcom : s'.committed = s.committed)
      (hfly : s'.inFlight = s.inFlight) (hdrop : s'.dropped = s.dropped.add h.op.counter)
  | written (hgone : gone = []) (hsent : s'.sent = s.sent)
      (hcom : s'.committed = s.committed ++ s.pending)
      (hfly : s.inFlight = s.pending ++ s'.inFlight) (hdrop : s'.dropped = s.dropped)
  | failed (hgone : gone = s.pending) (hsent : s'.sent = s.sent)
      (hcom : s'.committed = s.committed)
      (hfly : s.inFlight = s.pending ++ s'.inFlight) (hdrop : s'.dropped = s.dropped)

theorem moved_push (s : Pipeline ι) {h : Handed ι} {rest : List (Handed ι)}
    (hq : s.queue = h :: rest) : Moved s (s.push h rest) [] := by
  refine .same rfl rfl rfl ?_ rfl
  simp [inFlight, push, hq]

theorem moved_receive (s : Pipeline ι) : Moved s s.receive [] := by
  rw [receive]
  split
  · split
    · exact .same rfl rfl rfl rfl rfl
    · exact .same rfl rfl rfl rfl rfl
  · next hq => exact moved_push s hq
  · next hq => exact moved_push s hq
  · exact .same rfl rfl rfl rfl rfl

theorem moved_send (s : Pipeline ι) (producer : ι) (op : WriteOp) :
    Moved s (s.send producer op) [] := by
  rw [send]
  split
  · exact .queued ⟨producer, s.sent.length, op⟩ rfl rfl rfl rfl (by simp [inFlight]) rfl
  · exact .refused ⟨producer, s.sent.length, op⟩ rfl rfl rfl rfl rfl rfl

theorem moved_step (a : WriterAct ι) (s : Pipeline ι) : Moved s (step a s) (discarded a s) := by
  cases a with
  | send producer op =>
    simp only [step, discarded]
    split
    · exact .same rfl rfl rfl rfl rfl
    · exact moved_send s producer op
  | hangUp => exact .same rfl rfl rfl rfl rfl
  | receive => exact moved_receive s
  | deadline =>
    simp only [step, discarded]
    split
    · exact .same rfl rfl rfl rfl rfl
    · exact .same rfl rfl rfl rfl rfl
  | flush fails =>
    simp only [step, discarded]
    by_cases hphase : s.phase = .flushing
    · rw [if_pos hphase]
      cases hflush : (flush fails s.tables (s.pending.map Handed.op)).1 with
      | true =>
        simp only [hphase, true_and, Bool.true_eq_false, if_false]
        refine .written rfl rfl ?_ rfl rfl
        -- the batch goes into the history as a whole
        simp [committed, flushBatch, hflush, Entry.ops]
      | false =>
        simp only [hphase, and_self, if_true]
        refine .failed rfl rfl ?_ rfl rfl
        simp [committed, flushBatch, hflush]
    · simp only [hphase, false_and, if_false]
      exact .same rfl rfl rfl rfl rfl
  | prune now retentionDays done =>
    simp only [step, discarded]
    split
    · refine .same rfl rfl ?_ rfl rfl
      simp [committed, Entry.ops]
    · exact .same rfl rfl rfl rfl rfl

/-! ### What every run keeps -/

structure Wf (s : Pipeline ι) : Prop where
  pending_ne_nil : s.phase = .draining ∨ s.phase = .flushing → s.pending ≠ []
  seqs : s.sent.map Handed.seq = List.range s.sent.length
  inOrder : (s.committed ++ s.inFlight).Sublist s.sent
  whole : s.tables = s.history.foldl Entry.apply .fresh

theorem seqs_snoc {sent : List (Handed ι)} {h : Handed ι}
    (hs : sent.map Handed.seq = List.range sent.length) (hseq : h.seq = sent.length) :
    (sent ++ [h]).map Handed.seq = List.range (sent ++ [h]).length := by
  rw [List.map_append, List.map_singleton, hs, hseq, List.length_append, List.length_singleton,
    List.range_succ]

theorem seqs_step {a : WriterAct ι} {s : Pipeline ι}
    (hs : s.sent.map Handed.seq = List.range s.sent.length) :
    (step a s).sent.map Handed.seq = List.range (step a s).sent.length := by
  cases moved_step a s with
  | same _ hsent => rw [hsent]; exact hs
  | queued h _ hseq hsent => rw [hsent]; exact seqs_snoc hs hseq
  | refused h _ hseq hsent => rw [hsent]; exact seqs_snoc hs hseq
  | written _ hsent => rw [hsent]; exact hs
  | failed _ hsent => rw [hsent]; exact hs

theorem inOrder_step {a : WriterAct ι} {s : Pipeline ι}
    (hs : (s.committed ++ s.inFlight).Sublist s.sent) :
    ((step a s).committed ++ (step a s).inFlight).Sublist (step a s).sent := by
  cases moved_step a s with
  | same _ hsent hcom hfly => rw [hsent, hcom, hfly]; exact hs
  | queued h _ _ hsent hcom hfly =>
    rw [hsent, hcom, hfly, ← List.append_assoc]
    exact hs.append (List.Sublist.refl [h])
  | refused h _ _ hsent hcom hfly =>
    rw [hsent, hcom, hfly]
    exact hs.trans (List.sublist_append_left s.sent [h])
  | written _ hsent hcom hfly =>
    rw [hfly, ← List.append_assoc] at hs
    rw [hsent, hcom]
    exact hs
  | failed _ hsent hcom hfly =>
    rw [hfly] at hs
    rw [hsent, hcom]
    exact ((List.Sublist.refl _).append (List.sublist_append_right s.pending _)).trans hs

theorem pending_ne_nil_push {s : Pipeline ι} {h : Handed ι} {rest : List (Handed ι)} :
    (s.push h rest).pending ≠ [] := by
  simp [push]

theorem pending_ne_nil_step {a : WriterAct ι} {s : Pipeline ι}
    (hs : s.phase = .draining ∨ s.phase = .flushing → s.pending ≠ []) :
    (step a s).phase = .draining ∨ (step a s).phase = .flushing → (step a s).pending ≠ [] := by
  cases a with
  | send producer op =>
    rw [step]
    split
    · exact hs
    · rw [send]
      split <;> exact hs
  | hangUp => exact hs
  | receive =>
    rw [step, receive]
    split
    · split
      · intro h
        -- the thread has stopped
        simp at h
      · exact hs
    · exact fun _ => pending_ne_nil_push
    · exact fun _ => pending_ne_nil_push
    · exact hs
  | deadline =>
    rw [step]
    split
    · next hphase => exact fun _ => hs (.inl hphase)
    · exact hs
  | flush fails =>
    rw [step]
    split
    · intro h
      simp [flushBatch] at h
    · exact hs
  | prune now retentionDays done =>
    rw [step]
    split <;> exact hs

theorem whole_step {a : WriterAct ι} {s : Pipeline ι}
    (hs : s.tables = s.history.foldl Entry.apply .fresh) :
    (step a s).tables = (step a s).history.foldl Entry.apply .fresh := by
  cases a with
  | send producer op =>
    rw [step]
    split
    · exact hs
    · rw [send]
      split <;> exact hs
  | hangUp => exact hs
  | receive =>
    rw [step, receive]
    split
    · split <;> exact hs
    · exact hs
    · exact hs
    · exact hs
  | deadline =>
    rw [step]
    split <;> exact hs
  | flush fails =>
    rw [step]
    split
    · rw [flushBatch]
      obtain hflush | hflush := flush_cases fails s.tables (s.pending.map Handed.op)
      · rw [hflush]
        exact hs
      · rw [hflush]
        -- only a batch that is committed changes the tables
        simp only [if_true, List.foldl_append, List.foldl_cons, List.foldl_nil, Entry.apply, ← hs]
    · exact hs
  | prune now retentionDays done =>
    rw [step]
    split
    · simp only [List.foldl_append, List.foldl_cons, List.foldl_nil, Entry.apply, ← hs]
    · exact hs

theorem wf_step (a : WriterAct ι) (s : Pipeline ι) (h : s.Wf) : (step a s).Wf :=
  ⟨pending_ne_nil_step h.pending_ne_nil, seqs_step h.seqs, inOrder_step h.inOrder,
    whole_step h.whole⟩

theorem wf_start : ({} : Pipeline ι).Wf where
  pending_ne_nil := by rintro (h | h) <;> cases h
  seqs := rfl
  inOrder := List.nil_sublist _
  whole := rfl

theorem Wf.nodup {s : Pipeline ι} (h : s.Wf) : s.sent.Nodup := by
  have hseqs : (s.sent.map Handed.seq).Nodup := by
    rw [h.seqs]
    exact List.nodup_range
  exact hseqs.of_map

/-! ### The account -/

/-- Every op handed over is committed, on its way, counted or lost. -/
structure Accounted (s : Pipeline ι) (counted gone : List (Handed ι)) : Prop where
  counts : s.Counts counted
  sent : s.sent.Perm (s.committed ++ s.inFlight ++ counted ++ gone)

theorem counts_add {s s' : Pipeline ι} {counted : List (Handed ι)} {h : Handed ι}
    (hs : s.Counts counted) (hdrop : s'.dropped = s.dropped.add h.op.counter) :
    s'.Counts (counted ++ [h]) := by
  intro k
  rw [hdrop, DropCounts.get_add, hs k, List.countP_append, List.countP_singleton]
  simp

/-- A step adds to the account exactly what it loses. -/
theorem accounted_step (a : WriterAct ι) {s : Pipeline ι} {counted gone : List (Handed ι)}
    (h : s.Accounted counted gone) :
    ∃ counted', (step a s).Accounted counted' (gone ++ discarded a s) := by
  have hperm := h.sent
  cases moved_step a s with
  | same hgone hsent hcom hfly hdrop =>
    refine ⟨counted, fun k => by rw [hdrop]; exact h.counts k, ?_⟩
    rw [hgone, hsent, hcom, hfly, List.append_nil]
    exact hperm
  | queued x hgone _ hsent hcom hfly hdrop =>
    refine ⟨counted, fun k => by rw [hdrop]; exact h.counts k, ?_⟩
    rw [hgone, hsent, hcom, hfly, List.append_nil]
    refine (hperm.append_right [x]).trans ?_
    simp only [List.append_assoc]
    refine (List.Perm.append_left _ (List.Perm.append_left _ ?_))
    rw [← List.append_assoc]
    exact List.perm_append_comm
  | refused x hgone _ hsent hcom hfly hdrop =>
    refine ⟨counted ++ [x], counts_add h.counts hdrop, ?_⟩
    rw [hgone, hsent, hcom, hfly, List.append_nil]
    refine (hperm.append_right [x]).trans ?_
    simp only [List.append_assoc]
    exact ((List.perm_append_comm.append_left _).append_left _).append_left _
  | written hgone hsent hcom hfly hdrop =>
    refine ⟨counted, fun k => by rw [hdrop]; exact h.counts k, ?_⟩
    rw [hgone, hsent, hcom, List.append_nil, List.append_assoc s.committed, ← hfly]
    exact hperm
  | failed hgone hsent hcom hfly hdrop =>
    refine ⟨counted, fun k => by rw [hdrop]; exact h.counts k, ?_⟩
    rw [hfly] at hperm
    rw [hgone, hsent, hcom]
    refine hperm.trans ?_
    simp only [List.append_assoc]
    refine List.Perm.append_left _ ?_
    -- the batch moves behind what is still on its way
    refine List.perm_append_comm.trans ?_
    simp only [List.append_assoc]
    exact List.Perm.refl _

/-- The ops of the batches whose flush failed in the course of a run. -/
def discardedBy : List (WriterAct ι) → Pipeline ι → List (Handed ι)
  | [], _ => []
  | a :: acts, s => discarded a s ++ discardedBy acts (step a s)

theorem accounted_run (acts : List (WriterAct ι)) {s : Pipeline ι}
    {counted gone : List (Handed ι)} (h : s.Accounted counted gone) :
    ∃ counted', (run step acts s).Accounted counted' (gone ++ discardedBy acts s) := by
  induction acts generalizing s counted gone with
  | nil => exact ⟨counted, by rw [discardedBy, List.append_nil]; exact h⟩
  | cons a acts ih =>
    obtain ⟨counted', hstep⟩ := accounted_step a h
    obtain ⟨counted'', hrun⟩ := ih hstep
    refine ⟨counted'', ?_⟩
    rw [discardedBy, ← List.append_assoc]
    exact hrun

theorem length_eq_counts (l : List (Handed ι)) :
    l.length = l.countP (fun h => h.op.counter = .queries) +
      l.countP (fun h => h.op.counter = .devices) +
      l.countP (fun h => h.op.counter = .monitoring) +
      l.countP fun h => h.op.counter = .alerts := by
  induction l with
  | nil => rfl
  | cons h l ih =>
    simp only [List.length_cons, List.countP_cons, ih]
    cases h.op.counter <;> simp <;> omega

/-- The counters determine how many ops they stand for. -/
theorem Counts.length_eq {s : Pipeline ι} {counted counted' : List (Handed ι)}
    (h : s.Counts counted) (h' : s.Counts counted') : counted.length = counted'.length := by
  rw [length_eq_counts, length_eq_counts counted']
  simp only [← h _, ← h' _]

/-- An op that was lost cannot be made up for: the counters have no room for it. -/
theorem Accounted.gone_eq_nil {s : Pipeline ι} {counted gone counted' : List (Handed ι)}
    (h : s.Accounted counted gone) (hcounts : s.Counts counted')
    (hperm : s.sent.Perm (s.committed ++ s.inFlight ++ counted')) : gone = [] := by
  have hlen := h.sent.length_eq
  rw [hperm.length_eq] at hlen
  simp only [List.length_append, h.counts.length_eq hcounts] at hlen
  exact List.length_eq_zero_iff.mp (by omega)

/-- No step of a flush returns an error. -/
def Commits : WriterAct ι → Pipeline ι → Prop
  | .flush fails, s => s.phase = .flushing → Undisturbed fails (s.pending.map Handed.op)
  | _, _ => True

theorem discarded_eq_nil_iff (a : WriterAct ι) {s : Pipeline ι} (h : s.Wf) :
    discarded a s = [] ↔ Commits a s := by
  cases a with
  | flush fails =>
    simp only [discarded, Commits]
    by_cases hphase : s.phase = .flushing
    · have hne := h.pending_ne_nil (.inr hphase)
      rw [← flush_fst_iff (t := s.tables)]
      cases (flush fails s.tables (s.pending.map Handed.op)).1 <;> simp [hphase, hne]
    · simp [hphase]
  | send producer op => simp [discarded, Commits]
  | hangUp => simp [discarded, Commits]
  | receive => simp [discarded, Commits]
  | deadline => simp [discarded, Commits]
  | prune now retentionDays done => simp [discarded, Commits]

theorem discardedBy_eq_nil_iff (acts : List (WriterAct ι)) {s : Pipeline ι} (h : s.Wf) :
    discardedBy acts s = [] ↔ Along step Commits acts s := by
  induction acts generalizing s with
  | nil => simp [discardedBy, Along]
  | cons a acts ih =>
    rw [discardedBy, List.append_eq_nil_iff, discarded_eq_nil_iff a h, ih (wf_step a s h), Along]

theorem accounted_start : ({} : Pipeline ι).Accounted [] [] where
  counts := by intro k; cases k <;> rfl
  sent := List.Perm.refl _

/-- Every op is committed once, on its way, counted under its kind, or part of a batch that
was discarded as a whole when its flush failed. -/
theorem conserved_run [DecidableEq ι] (acts : List (WriterAct ι)) :
    (run step acts {}).Conserved (discardedBy acts {}) := by
  have hwf : (run step acts {}).Wf := run_invariant wf_step acts wf_start
  obtain ⟨counted, hacc⟩ := accounted_run acts (@accounted_start ι)
  refine ⟨hwf.nodup, ⟨counted, hacc.counts, hacc.sent⟩, hwf.whole, fun p => ?_⟩
  exact ((List.sublist_append_left _ _).trans hwf.inOrder).filter _

/-- The counters account for everything in exactly the runs in which no flush fails. -/
theorem all_accounted_iff_commits (acts : List (WriterAct ι)) :
    (∃ counted, (run step acts {}).Accounted counted []) ↔ Along step Commits acts {} := by
  obtain ⟨counted, hacc⟩ := accounted_run acts (@accounted_start ι)
  rw [List.nil_append] at hacc
  rw [← discardedBy_eq_nil_iff acts wf_start]
  constructor
  · rintro ⟨counted', hall⟩
    have hperm := hall.sent
    rw [List.append_nil] at hperm
    exact hacc.gone_eq_nil hall.counts hperm
  · intro hnone
    rw [hnone] at hacc
    exact ⟨counted, hacc⟩

/-- One query is handed over, taken off the channel and flushed; the transaction cannot be
opened. -/
def failedFlush : List (WriterAct Unit) :=
  [.send () (.query ⟨0, [], [], [], .forwarded, none, none, none⟩), .receive, .deadline,
    .flush fun _ => true]

/-- The query is then neither committed nor on its way nor counted. -/
theorem failedFlush_not_conserved : ¬ (run step failedFlush {}).Conserved [] := by
  rintro ⟨-, ⟨counted, hcounts, hperm⟩, -, -⟩
  rw [List.append_nil] at hperm
  have hone : 1 = counted.length := hperm.length_eq.trans (by
    rw [show (run step failedFlush {}).committed = [] from rfl,
      show (run step failedFlush {}).inFlight = [] from rfl]
    rfl)
  have hzero : ∀ k, counted.countP (fun h => h.op.counter = k) = 0 := by
    intro k
    rw [← hcounts k]
    cases k <;> rfl
  rw [length_eq_counts] at hone
  simp only [hzero] at hone
  omega

end Netwatch.Db.Pipeline
