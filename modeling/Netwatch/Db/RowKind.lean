import Netwatch.Db.Conservation

/-!
# Rows that are appended

The rows of the query log, the latencies and the alerts come about in the same way: an op of
their kind appends one, no other op touches them, and a prune may take some out. Hence what the
tables have of them follows from what has been committed.

## Main definitions

- `RowKind` — how rows of a kind are read off the tables and off the ops
- `RowKind.handed` — the rows that some ops stand for

## Main results

- `RowKind.sublist_replay` — the tables have nothing else, in the order of the commits
- `RowKind.filter_replay` — what no prune takes out is there
- `RowKind.sublist_sent` — and in the order in which the ops were handed over
- `RowKind.length_sent` — what became of the ops of a kind that is counted by itself
- `RowKind.committed_eq_sent` — when all of them are committed
-/

namespace Netwatch.Db

open RustStd Interleaving

structure RowKind (β : Type) where
  rows : Tables → List β
  sent : WriteOp → Option β
  /-- Whether a prune leaves the row where it is, if it gets that far. -/
  keeps : ℤ → ℕ → β → Bool
  fresh : rows .fresh = []
  execute : ∀ t op, rows (t.execute op) = rows t ++ (sent op).toList
  prune : ∀ now retentionDays done t,
    rows (prune now retentionDays done t) = rows t ∨
      rows (prune now retentionDays done t) = (rows t).filter (keeps now retentionDays)

namespace RowKind

variable {β ι : Type} (kind : RowKind β)

def handed (ops : List (Handed ι)) : List β := ops.filterMap fun h => kind.sent h.op

theorem handed_append (ops ops' : List (Handed ι)) :
    kind.handed (ops ++ ops') = kind.handed ops ++ kind.handed ops' := List.filterMap_append

theorem handed_singleton (h : Handed ι) : kind.handed [h] = (kind.sent h.op).toList := by
  rw [handed, List.filterMap_cons]
  cases kind.sent h.op <;> rfl

theorem rows_executeAll (t : Tables) (ops : List (Handed ι)) :
    kind.rows (t.executeAll (ops.map Handed.op)) = kind.rows t ++ kind.handed ops := by
  induction ops generalizing t with
  | nil => exact (List.append_nil _).symm
  | cons h ops ih =>
    refine (ih (t.execute h.op)).trans ?_
    rw [kind.execute, List.append_assoc, ← kind.handed_singleton, ← handed_append]
    rfl

theorem sublist_apply (t : Tables) (entry : Entry ι) :
    (kind.rows (entry.apply t)).Sublist (kind.rows t ++ kind.handed entry.ops) := by
  cases entry with
  | batch ops => exact (kind.rows_executeAll t ops).symm ▸ List.Sublist.refl _
  | pruned now retentionDays done =>
    refine List.Sublist.trans ?_ (List.sublist_append_left (kind.rows t) _)
    rw [Entry.apply]
    obtain hsame | hdeleted := kind.prune now retentionDays done t
    · rw [hsame]
    · rw [hdeleted]
      exact List.filter_sublist

/-- No prune of the history takes out a row of which `p` holds. -/
def Spares (p : β → Bool) (history : List (Entry ι)) : Prop :=
  ∀ now retentionDays done, Entry.pruned now retentionDays done ∈ history →
    ∀ b, p b = true → kind.keeps now retentionDays b = true

variable {kind}

theorem filter_apply {p : β → Bool} {entry : Entry ι} (h : kind.Spares p [entry]) (t : Tables) :
    (kind.rows (entry.apply t)).filter p = (kind.rows t ++ kind.handed entry.ops).filter p := by
  cases entry with
  | batch ops => rw [← kind.rows_executeAll]; rfl
  | pruned now retentionDays done =>
    show (kind.rows (Db.prune now retentionDays done t)).filter p = (kind.rows t ++ []).filter p
    rw [List.append_nil]
    obtain hsame | hdeleted := kind.prune now retentionDays done t
    · rw [hsame]
    · rw [hdeleted, List.filter_filter]
      -- the prune keeps what `p` holds of
      refine List.filter_congr fun b _ => ?_
      cases hb : p b with
      | false => rfl
      | true => exact h now retentionDays done (List.mem_singleton_self _) b hb

/-! ### Histories -/

theorem sublist_replay (kind : RowKind β) (history : List (Entry ι)) :
    (kind.rows (history.foldl Entry.apply .fresh)).Sublist
      (kind.handed (history.flatMap Entry.ops)) := by
  induction history using List.reverseRecOn with
  | nil =>
    show (kind.rows .fresh).Sublist []
    rw [kind.fresh]
  | append_singleton history entry ih =>
    rw [List.foldl_append, List.flatMap_append, handed_append, List.flatMap_singleton]
    exact (kind.sublist_apply _ entry).trans (ih.append (List.Sublist.refl _))

theorem filter_replay {p : β → Bool} {history : List (Entry ι)} (h : kind.Spares p history) :
    (kind.rows (history.foldl Entry.apply .fresh)).filter p =
      (kind.handed (history.flatMap Entry.ops)).filter p := by
  induction history using List.reverseRecOn with
  | nil =>
    show (kind.rows .fresh).filter p = [].filter p
    rw [kind.fresh]
  | append_singleton history entry ih =>
    have hrest : kind.Spares p history := fun now retentionDays done hmem =>
      h now retentionDays done (List.mem_append_left _ hmem)
    have hlast : kind.Spares p [entry] := fun now retentionDays done hmem =>
      h now retentionDays done (List.mem_append_right _ hmem)
    rw [List.foldl_append, List.flatMap_append, handed_append, List.flatMap_singleton]
    refine (filter_apply hlast _).trans ?_
    rw [List.filter_append, ih hrest, List.filter_append]

/-! ### What is handed over -/

/-- A producer hands its op over, whether it is queued or dropped. -/
theorem handed_send (kind : RowKind β) {s : Pipeline ι} (h : s.producersGone = false)
    (producer : ι) (op : WriteOp) :
    (Pipeline.step (.send producer op) s).producersGone = false ∧
      kind.handed (Pipeline.step (.send producer op) s).sent =
        kind.handed s.sent ++ (kind.sent op).toList := by
  have hlast : kind.handed [(⟨producer, s.sent.length, op⟩ : Handed ι)] = (kind.sent op).toList :=
    kind.handed_singleton _
  rw [Pipeline.step, h, if_neg Bool.false_ne_true, Pipeline.send, ← hlast, ← handed_append]
  split
  · exact ⟨h, rfl⟩
  · exact ⟨h, rfl⟩

theorem handed_sends (kind : RowKind β) {s : Pipeline ι} (h : s.producersGone = false)
    (producer : ι) (ops : List WriteOp) :
    (run Pipeline.step (ops.map (.send producer)) s).producersGone = false ∧
      kind.handed (run Pipeline.step (ops.map (.send producer)) s).sent =
        kind.handed s.sent ++ ops.filterMap kind.sent := by
  induction ops generalizing s with
  | nil => exact ⟨h, (List.append_nil _).symm⟩
  | cons op ops ih =>
    obtain ⟨hopen, hsent⟩ := kind.handed_send h producer op
    obtain ⟨hopen', hsent'⟩ := ih hopen
    refine ⟨hopen', hsent'.trans ?_⟩
    rw [hsent, List.append_assoc, List.filterMap_cons]
    cases kind.sent op <;> rfl

/-- The tables have nothing but what was handed over, in that order. -/
theorem sublist_sent (kind : RowKind β) {s : Pipeline ι} (hwf : s.Wf) :
    (kind.rows s.tables ++ kind.handed s.inFlight).Sublist (kind.handed s.sent) := by
  have hsublist : (kind.handed (s.committed ++ s.inFlight)).Sublist (kind.handed s.sent) :=
    hwf.inOrder.filterMap _
  rw [handed_append] at hsublist
  rw [hwf.whole]
  exact ((kind.sublist_replay s.history).append (List.Sublist.refl _)).trans hsublist

/-! ### The account of a kind -/

/-- The kind is the only one that a counter stands for. -/
def CountedBy (kind : RowKind β) (counter : Counter) : Prop :=
  ∀ op, (kind.sent op).isSome = decide (op.counter = counter)

theorem CountedBy.sent_of_ne {counter : Counter} (h : kind.CountedBy counter) {op : WriteOp}
    (hne : op.counter ≠ counter) : kind.sent op = none := by
  rw [← Option.not_isSome_iff_eq_none, h op, decide_eq_true_iff]
  exact hne

theorem CountedBy.length_handed {counter : Counter} (h : kind.CountedBy counter)
    (ops : List (Handed ι)) :
    (kind.handed ops).length = ops.countP fun h => h.op.counter = counter := by
  rw [handed, List.length_filterMap_eq_countP]
  exact List.countP_congr fun op _ => by rw [h op.op]

/-- What was handed over is committed, on its way, counted, or gone with a failed flush. -/
theorem CountedBy.length_sent {counter : Counter} (h : kind.CountedBy counter)
    (acts : List (WriterAct ι)) :
    (kind.handed (run Pipeline.step acts {}).sent).length =
      (kind.handed (run Pipeline.step acts {}).committed).length +
        (kind.handed (run Pipeline.step acts {}).inFlight).length +
          (run Pipeline.step acts {}).dropped.get counter +
            (kind.handed (Pipeline.discardedBy acts {})).length := by
  obtain ⟨counted, hcounts, hperm⟩ := Pipeline.accounted_run acts (@Pipeline.accounted_start ι)
  have hlength := (hperm.filterMap fun h => kind.sent h.op).length_eq
  rw [hcounts counter, ← h.length_handed counted]
  rw [List.nil_append, List.filterMap_append, List.filterMap_append, List.filterMap_append,
    List.length_append, List.length_append, List.length_append] at hlength
  exact hlength

/-- Where nothing is on its way, dropped or gone with a failed flush, all of it is committed. -/
theorem committed_eq_sent (kind : RowKind β) {counter : Counter}
    (hcounter : ∀ op, (kind.sent op).isSome = true → op.counter = counter)
    {acts : List (WriterAct ι)} (hdropped : (run Pipeline.step acts {}).dropped.get counter = 0)
    (hflying : kind.handed (run Pipeline.step acts {}).inFlight = [])
    (hdiscarded : kind.handed (Pipeline.discardedBy acts {}) = []) :
    kind.handed (run Pipeline.step acts {}).committed =
      kind.handed (run Pipeline.step acts {}).sent := by
  have hwf : (run Pipeline.step acts {}).Wf := run_invariant Pipeline.wf_step acts Pipeline.wf_start
  obtain ⟨counted, hcounts, hperm⟩ := Pipeline.accounted_run acts (@Pipeline.accounted_start ι)
  have hnone : kind.handed counted = [] := by
    rw [handed, List.filterMap_eq_nil_iff]
    intro h hh
    have hzero := hcounts counter
    rw [hdropped, eq_comm, List.countP_eq_zero] at hzero
    rw [← Option.not_isSome_iff_eq_none]
    exact fun hsome => hzero h hh (decide_eq_true (hcounter h.op hsome))
  have hsublist : (kind.handed (run Pipeline.step acts {}).committed).Sublist
      (kind.handed (run Pipeline.step acts {}).sent) :=
    ((List.sublist_append_left _ _).trans hwf.inOrder).filterMap _
  have hsent : (kind.handed (run Pipeline.step acts {}).sent).Perm
      (kind.handed ((run Pipeline.step acts {}).committed ++ (run Pipeline.step acts {}).inFlight ++
        counted ++ ([] ++ Pipeline.discardedBy acts {}))) := hperm.filterMap _
  rw [List.nil_append, handed_append, handed_append, handed_append, hflying, hnone, hdiscarded,
    List.append_nil, List.append_nil, List.append_nil] at hsent
  exact hsublist.eq_of_length hsent.length_eq.symm

end RowKind

end Netwatch.Db
