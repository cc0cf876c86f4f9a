import Netwatch.Blocklist.Manual
import Netwatch.Interleaving.Run
import Mathlib.Logic.Function.Basic

/-!
# Concurrent edits of one list

Nothing serialises the edits of a manual list. Each one first reads the file and later writes
it: an `append` adds its line to whatever the file holds by then, a `remove` overwrites the
file with what it kept of the text it has read.

## Main definitions

- `Phase` — how far a call has come, with its local variables
- `Race.step` — the next file access of one call
- `Fresh` — a `remove` overwrites what it has read, as far as the other lines go

## Main results

- `matched_step_iff` — a step keeps up with the sequential execution just if it is fresh
- `fresh_run_serializes` — fresh runs amount to a sequential execution
-/

namespace Netwatch.Blocklist

open RustStd Interleaving

inductive Phase
  | ready
  /-- The duplicate check is done. -/
  | appending (domain : Str)
  | removing (domain existing : Str)
  | done
  | failed
  deriving DecidableEq

/-- A call up to its first file access. -/
def Edit.begin (e : Edit) (file : ListFile) : Phase :=
  match e with
  | .append domain =>
    let domain := manualDomain domain
    if !(normalize domain).isSome then .failed
    else match file.readToString with
      | some existing => if listsDomain existing domain then .done else .appending domain
      | none => .appending domain
  | .remove domain =>
    match file.readToString with
    | none => .done
    | some existing => .removing (manualDomain domain) existing

/-- What is left of a call after its first file access. -/
def Phase.finish (p : Phase) (file : ListFile) : ListFile :=
  match p with
  | .appending domain => file.writeln domain
  | .removing domain existing => .text (Str.unlines (kept existing domain))
  | .ready | .done | .failed => file

structure Race (ι : Type) where
  file : ListFile
  phase : ι → Phase

namespace Race

variable {ι : Type} [DecidableEq ι]

def start (file : ListFile) : Race ι := ⟨file, fun _ => .ready⟩

def step (edits : ι → Edit) (i : ι) (st : Race ι) : Race ι :=
  match st.phase i with
  | .ready => { st with phase := Function.update st.phase i ((edits i).begin st.file) }
  | .appending domain =>
    ⟨(Phase.appending domain).finish st.file, Function.update st.phase i .done⟩
  | .removing domain existing =>
    ⟨(Phase.removing domain existing).finish st.file, Function.update st.phase i .done⟩
  | .done | .failed => st

/-- A call takes effect with its write, or with the read after which it has nothing to write. -/
def point (edits : ι → Edit) (i : ι) (st : Race ι) : Option ι :=
  match st.phase i with
  | .ready => if (edits i).begin st.file = .done then some i else none
  | .appending _ | .removing _ _ => some i
  | .done | .failed => none

/-- A `remove` about to overwrite the file has read the lines it now keeps. -/
def Fresh (i : ι) (st : Race ι) : Prop :=
  match st.phase i with
  | .removing domain existing =>
    Str.listed st.file.contents \ {domain} = Str.listed existing \ {domain}
  | _ => True

/-- One call after the other. -/
def sequential (edits : ι → Edit) (file : ListFile) (i : ι) : ListFile := ((edits i).exec file).2

omit [DecidableEq ι] in
/-- A call that is not interrupted is the source function. -/
theorem finish_begin (e : Edit) (file : ListFile) :
    (e.begin file).finish file = (e.exec file).2 := by
  cases e with
  | append domain =>
    simp only [Edit.begin, Edit.exec, appendManual]
    split
    · rfl
    · cases file.readToString with
      | none => rfl
      | some existing =>
        cases hdup : listsDomain existing (manualDomain domain) <;> simp [hdup, Phase.finish]
  | remove domain =>
    simp only [Edit.begin, Edit.exec, removeManual]
    cases file.readToString <;> rfl

theorem once (edits : ι → Edit) :
    Once (step edits) (point edits) fun i st => st.phase i = .done where
  fresh {i st j} hpoint hdone := by
    rw [point] at hpoint
    cases hphase : st.phase i <;> simp [hphase] at hpoint
    all_goals
      obtain rfl : i = j := by tauto
      rw [hphase] at hdone
      cases hdone
  settled_step {i st j} := by
    rw [point, step]
    by_cases hij : j = i
    · subst hij
      cases hphase : st.phase j <;> simp [hphase]
    · have hij' : ¬ i = j := fun h => hij h.symm
      cases hphase : st.phase i <;> simp [hij, hij']

/-! ### The invariant of a race -/

/-- The concurrent file against the file of the sequential execution: the duplicate check of
an `append` may be out of date, so its line may be there twice. -/
def Agree (file file' : ListFile) : Prop :=
  file = file' ∨ ∃ s t, file = .text s ∧ file' = .text t ∧ Str.Terminated s ∧
    Str.Terminated t ∧ Str.listed s = Str.listed t

/-- What a call that has not written yet knows about the file. -/
def Pending (e : Edit) (p : Phase) (file : ListFile) : Prop :=
  match p with
  | .appending domain =>
    e.Valid ∧ (∃ raw, e = .append raw ∧ domain = manualDomain raw) ∧
      ∀ s, file = .text s → ¬ Str.Terminated s → domain ∉ Str.listed s
  | .removing domain _ =>
    (∃ raw, e = .remove raw ∧ domain = manualDomain raw) ∧ ∃ s, file = .text s
  | .ready | .done | .failed => True

/-- The first write leaves a text whose lines are all terminated. -/
def Written (file : ListFile) : Prop := file = .garbled ∨ ∃ s, file = .text s ∧ Str.Terminated s

theorem Pending.of_written {e : Edit} {p : Phase} {file file' : ListFile}
    (h : Pending e p file) (hw : Written file') (hgarbled : file' = .garbled → file = .garbled) :
    Pending e p file' := by
  cases p with
  | appending domain =>
    refine ⟨h.1, h.2.1, fun s hs hnot => ?_⟩
    rcases hw with hw | ⟨t, ht, hterm⟩
    · rw [hs] at hw
      cases hw
    · rw [hs] at ht
      exact absurd (ListFile.text.inj ht ▸ hterm) hnot
  | removing domain existing =>
    refine ⟨h.1, ?_⟩
    rcases hw with hw | ⟨t, ht, _⟩
    · obtain ⟨s, hs⟩ := h.2
      rw [hgarbled hw] at hs
      cases hs
    · exact ⟨t, ht⟩
  | ready => trivial
  | done => trivial
  | failed => trivial

theorem written_writeln (file : ListFile) (line : Str) : Written (file.writeln line) := by
  cases file with
  | missing => exact .inr ⟨_, rfl, .inr ⟨line, rfl⟩⟩
  | garbled => exact .inl rfl
  | text s => exact .inr ⟨_, rfl, .inr ⟨s ++ line, by simp⟩⟩

theorem garbled_of_writeln {file : ListFile} {line : Str} (h : file.writeln line = .garbled) :
    file = .garbled := by
  cases file with
  | garbled => rfl
  | missing => cases h
  | text s => cases h

theorem Agree.text_left {s : Str} {file' : ListFile} (h : Agree (.text s) file') :
    ∃ t, file' = .text t ∧ Str.listed s = Str.listed t := by
  rcases h with h | ⟨s', t, hs, ht, _, _, hlisted⟩
  · exact ⟨s, h.symm, rfl⟩
  · exact ⟨t, ht, ListFile.text.inj hs ▸ hlisted⟩

theorem Agree.unreadable {file file' : ListFile} (h : Agree file file')
    (hread : file.readToString = none) : file' = file := by
  rcases h with h | ⟨s, _, hs, _⟩
  · exact h.symm
  · rw [hs] at hread
    cases hread

theorem Agree.writeln {file file' : ListFile} {raw : Str} (h : Agree file file')
    (hv : (normalize (manualDomain raw)).isSome = true)
    (hnew : ∀ s, file = .text s → ¬ Str.Terminated s → manualDomain raw ∉ Str.listed s) :
    Agree (file.writeln (manualDomain raw)) (appendManual raw file').2 := by
  rcases h with rfl | ⟨s, t, rfl, rfl, hs, ht, hlisted⟩
  · cases file with
    | missing => exact .inl (appendManual_of_unreadable hv rfl).symm
    | garbled => exact .inl (appendManual_of_unreadable hv rfl).symm
    | text s =>
      by_cases hin : manualDomain raw ∈ Str.listed s
      · -- listed since the check: the text is terminated, and the line is there twice
        have hs : Str.Terminated s := by
          by_contra hnot
          exact hnew s rfl hnot hin
        obtain ⟨u, hu, huterm, hulisted⟩ := listed_writeln hs hv
        exact .inr ⟨u, s, hu, appendManual_of_listed hv hin, huterm, hs,
          hulisted.trans (Set.insert_eq_of_mem hin)⟩
      · exact .inl (appendManual_of_not_listed hv hin).symm
  · obtain ⟨u, hu, huterm, hulisted⟩ := listed_writeln hs hv
    obtain ⟨v, hv', hvterm, hvlisted⟩ := listed_exec (e := .append raw) ht hv
    refine .inr ⟨u, v, hu, hv', huterm, hvterm, ?_⟩
    rw [hulisted, hvlisted, hlisted]
    rfl

theorem Agree.overwrite_iff {s existing raw : Str} {file' : ListFile}
    (h : Agree (.text s) file') :
    Agree (.text (Str.unlines (kept existing (manualDomain raw)))) (removeManual raw file').2 ↔
      Str.listed s \ {manualDomain raw} = Str.listed existing \ {manualDomain raw} := by
  obtain ⟨t, rfl, hlisted⟩ := h.text_left
  have hkept : ∀ u, Str.listed (Str.unlines (kept u (manualDomain raw))) =
      Str.listed u \ {manualDomain raw} := fun u => Str.listed_unlines_filter u _
  rw [hlisted, ← hkept, ← hkept]
  constructor
  · intro hagree
    obtain ⟨u, hu, heq⟩ := hagree.text_left
    have hwritten : Str.unlines (kept t (manualDomain raw)) = u := ListFile.text.inj hu
    rw [hwritten, heq]
  · intro heq
    exact .inr ⟨_, _, rfl, rfl, Str.terminated_unlines _, Str.terminated_unlines _, heq.symm⟩

theorem pending_begin (e : Edit) (file : ListFile) : Pending e (e.begin file) file := by
  cases e with
  | append raw =>
    cases hv : (normalize (manualDomain raw)).isSome with
    | true =>
      cases file with
      | missing =>
        simp only [Edit.begin, hv, ListFile.readToString]
        exact ⟨hv, ⟨raw, rfl, rfl⟩, fun s hs => by cases hs⟩
      | garbled =>
        simp only [Edit.begin, hv, ListFile.readToString]
        exact ⟨hv, ⟨raw, rfl, rfl⟩, fun s hs => by cases hs⟩
      | text s =>
        have hdup := listsDomain_iff (s := s) (manualDomain_ne_nil hv)
        cases hlists : listsDomain s (manualDomain raw) with
        | true => simp [Edit.begin, hv, ListFile.readToString, hlists, Pending]
        | false =>
          rw [hlists, Bool.false_eq_true, false_iff] at hdup
          simp only [Edit.begin, hv, ListFile.readToString, hlists]
          refine ⟨hv, ⟨raw, rfl, rfl⟩, fun s' hs' _ => ?_⟩
          rwa [← ListFile.text.inj hs']
    | false => simp [Edit.begin, hv, Pending]
  | remove raw =>
    cases file with
    | missing => trivial
    | garbled => trivial
    | text s => exact ⟨⟨raw, rfl, rfl⟩, s, rfl⟩

/-- Without anything to write, the sequential execution has nothing to write either. -/
theorem Agree.begin_done {e : Edit} {file file' : ListFile} (h : Agree file file')
    (hdone : e.begin file = .done) : Agree file (e.exec file').2 := by
  cases hread : file.readToString with
  | none =>
    rw [h.unreadable hread, ← finish_begin, hdone]
    exact .inl rfl
  | some s =>
    obtain rfl : file = .text s := by
      cases file <;> simp_all [ListFile.readToString]
    obtain ⟨t, rfl, hlisted⟩ := h.text_left
    cases e with
    | remove raw => simp [Edit.begin, ListFile.readToString] at hdone
    | append raw =>
      by_cases hv : (normalize (manualDomain raw)).isSome = true
      · have hdup : listsDomain s (manualDomain raw) = true := by
          by_contra hnot
          simp [Edit.begin, hv, ListFile.readToString, hnot] at hdone
        have hin : manualDomain raw ∈ Str.listed t := by
          rw [← hlisted]
          exact (listsDomain_iff (manualDomain_ne_nil hv)).mp hdup
        rw [Edit.exec, appendManual_of_listed hv hin]
        exact h
      · simp [Edit.begin, hv] at hdone

/-- The state of a race against the file of the sequential execution so far. -/
def Matched (edits : ι → Edit) (st : Race ι) (file' : ListFile) : Prop :=
  Agree st.file file' ∧ ∀ j, Pending (edits j) (st.phase j) st.file

omit [DecidableEq ι] in
theorem matched_start (edits : ι → Edit) (file : ListFile) : Matched edits (start file) file :=
  ⟨.inl rfl, fun _ => trivial⟩

/-- A step keeps the match just if it is fresh. -/
theorem matched_step_iff (edits : ι → Edit) (i : ι) (st : Race ι) (file' : ListFile)
    (h : Matched edits st file') :
    Matched edits (step edits i st)
      ((point edits i st).toList.foldl (sequential edits) file') ↔ Fresh i st := by
  obtain ⟨hagree, hpending⟩ := h
  -- only the phase of `i` changes, and what the others wait for is about the file
  have hothers : ∀ {p : Phase} {file : ListFile}, Pending (edits i) p file →
      (∀ j, Pending (edits j) (st.phase j) file) →
      ∀ j, Pending (edits j) (Function.update st.phase i p j) file := by
    intro p file hp hall j
    by_cases hj : j = i
    · rw [hj, Function.update_self]
      exact hp
    · rw [Function.update_of_ne hj]
      exact hall j
  have hi := hpending i
  rw [step, point, Fresh]
  cases hphase : st.phase i with
  | ready =>
    refine iff_true_intro ⟨?_, hothers (pending_begin (edits i) st.file) hpending⟩
    show Agree st.file ((if (edits i).begin st.file = .done then some i else none).toList.foldl
      (sequential edits) file')
    -- an edit with nothing to write is done as soon as it has read
    split
    · next hdone => exact hagree.begin_done hdone
    · exact hagree
  | appending domain =>
    rw [hphase] at hi
    -- an append adds its line to whatever the file is by now
    obtain ⟨hvalid, ⟨raw, hedit, rfl⟩, hnew⟩ := hi
    rw [hedit] at hvalid
    refine iff_true_intro ⟨?_, hothers trivial fun j =>
      (hpending j).of_written (written_writeln _ _) garbled_of_writeln⟩
    show Agree (st.file.writeln (manualDomain raw)) ((edits i).exec file').2
    rw [hedit]
    exact hagree.writeln hvalid hnew
  | removing domain existing =>
    rw [hphase] at hi
    -- an overwrite puts back the file as it was read, without the domain
    obtain ⟨⟨raw, hedit, rfl⟩, s, hs⟩ := hi
    rw [hs] at hagree ⊢
    have hrest : ∀ j, Pending (edits j) (Function.update st.phase i .done j)
        (.text (Str.unlines (kept existing (manualDomain raw)))) :=
      hothers trivial fun j =>
        (hpending j).of_written (.inr ⟨_, rfl, Str.terminated_unlines _⟩) nofun
    have hiff : Agree (.text (Str.unlines (kept existing (manualDomain raw))))
        ((edits i).exec file').2 ↔ Str.listed s \ {manualDomain raw} =
          Str.listed existing \ {manualDomain raw} := by
      rw [hedit]
      exact hagree.overwrite_iff
    exact (and_iff_left hrest).trans hiff
  | done => exact iff_true_intro ⟨hagree, hpending⟩
  | failed => exact iff_true_intro ⟨hagree, hpending⟩

theorem Agree.rules_eq {file file' : ListFile} (h : Agree file file') (allow : Bool) :
    rules allow file = rules allow file' := by
  rcases h with rfl | ⟨s, t, rfl, rfl, _, _, hlisted⟩
  · rfl
  · exact rules_eq_of_listed_eq hlisted allow

/-- Once every call of a fresh run has returned, the file has the rules that some sequential
execution of the same calls leaves. -/
theorem fresh_run_serializes (edits : ι → Edit) (file : ListFile) (sched : List ι)
    (hfresh : Along (step edits) Fresh sched (start file))
    (hdone : ∀ i, (run (step edits) sched (start file)).phase i = .done) (allow : Bool) :
    ∃ calls : List ι, calls.Nodup ∧ (∀ i, i ∈ calls) ∧
      rules allow (run (step edits) sched (start file)).file =
        rules allow (calls.foldl (sequential edits) file) := by
  have honce := once edits
  have hmatched : Matched edits (run (step edits) sched (start file)) _ :=
    hfresh.related (fun i st file' hi h => (matched_step_iff edits i st file' h).mpr hi)
      (matched_start edits file)
  refine ⟨order (step edits) (point edits) sched (start file), honce.nodup_order _ _, ?_,
    hmatched.1.rules_eq allow⟩
  intro i
  refine honce.mem_order.mpr ⟨hdone i, ?_⟩
  simp [start]

/-! ### A remove and an append -/

def unblockAnd (other : Edit) : Bool → Edit
  | false => .remove "a.example.com".toList
  | true => other

def blocksA : ListFile := .text "a.example.com\n".toList

def blockB : Edit := .append "b.example.com".toList

theorem calls_of_bool {calls : List Bool} (hnodup : calls.Nodup) (hall : ∀ i, i ∈ calls) :
    calls = [false, true] ∨ calls = [true, false] := by
  have hperm : calls.Perm [false, true] :=
    (List.perm_ext_iff_of_nodup hnodup (by decide)).mpr fun i => by simp [hall i]
  obtain ⟨i, j, rfl⟩ := List.length_eq_two.mp hperm.length_eq
  cases i <;> cases j <;> simp at hnodup ⊢

/-- The append comes between the read and the write of the `remove`. -/
def staleSchedule : List Bool := [false, true, true, false]

theorem stale_remove_loses_append :
    (∀ i, (run (step (unblockAnd blockB)) staleSchedule (start blocksA)).phase i = .done) ∧
    ∀ calls : List Bool, calls.Nodup → (∀ i, i ∈ calls) →
      rules false (run (step (unblockAnd blockB)) staleSchedule (start blocksA)).file ≠
        rules false (calls.foldl (sequential (unblockAnd blockB)) blocksA) := by
  have hlost : (run (step (unblockAnd blockB)) staleSchedule (start blocksA)).file =
      .text ['\n'] := by decide
  have hrule : (⟨false, .exact "b.example.com".toList⟩ : ListRule) ∉
      rules false (.text ['\n']) := by
    show _ ∉ textRules false ['\n']
    decide
  refine ⟨by decide, fun calls hnodup hall heq => hrule ?_⟩
  rw [← hlost, heq]
  rcases calls_of_bool hnodup hall with rfl | rfl
  · show _ ∈ textRules false "\nb.example.com\n".toList
    decide
  · show _ ∈ textRules false "b.example.com\n".toList
    decide

/-- The `remove` runs between the check and the write of the append. -/
def freshSchedule : List Bool := [true, false, false, true]

theorem along_freshSchedule :
    Along (step (unblockAnd blockB)) Fresh freshSchedule (start blocksA) := by
  let checked := step (unblockAnd blockB) true (start blocksA)
  let removing := step (unblockAnd blockB) false checked
  let removed := step (unblockAnd blockB) false removing
  have hready : checked.phase false = .ready := by decide
  have hread : removing.phase false =
      .removing "a.example.com".toList "a.example.com\n".toList := by decide
  have hfile : removing.file = blocksA := by decide
  have hlast : removed.phase true = .appending "b.example.com".toList := by decide
  refine ⟨trivial, ?_, ?_, ?_, trivial⟩
  · show Fresh false checked
    rw [Fresh, hready]
    trivial
  · show Fresh false removing
    rw [Fresh, hread, hfile]
    rfl
  · show Fresh true removed
    rw [Fresh, hlast]
    trivial

theorem fresh_run_serializes_between :
    (run (step (unblockAnd blockB)) freshSchedule (start blocksA)).file =
      .text "\nb.example.com\n".toList ∧
    ∃ calls : List Bool, calls.Nodup ∧ (∀ i, i ∈ calls) ∧
      rules false (run (step (unblockAnd blockB)) freshSchedule (start blocksA)).file =
        rules false (calls.foldl (sequential (unblockAnd blockB)) blocksA) :=
  ⟨by decide, fresh_run_serializes (unblockAnd blockB) blocksA freshSchedule
    along_freshSchedule (by decide) false⟩

end Race

end Netwatch.Blocklist
