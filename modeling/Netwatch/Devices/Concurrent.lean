import Mathlib.Logic.Function.Basic
import Netwatch.Devices.Persisted

/-!
# Concurrent calls

A call updates its entry and takes a snapshot in one critical section, releases the lock and
then sends the snapshot. `touch_ip` has a read-locked check before that, with the clock value
it will write. Any number of calls may be under way, and each step is one of these parts of
one of them.

## Main definitions

- `World` — the registry, how far each call has come, the snapshots held and the rows sent
- `World.step` — the next part of one call
- `Moved` — the three things a step can be

## Main results

- `step_moved` — every step is one of them
- `follows_moved` — the rows held and sent are those of a debounced log
-/

namespace Netwatch.Devices

open RustStd Debounce Interleaving

/-- How far a call has come. -/
inductive Phase
  | ready
  /-- `touch_ip` between its two locks. -/
  | checked (ip : Ipv4Addr) (now : ℕ)
  | released
  deriving DecidableEq

/-- The op that `persist` builds from a snapshot. -/
def LogRow.op (r : LogRow) (ts : ℤ) : Db.DeviceOp := persist { r.value with mac := r.key } ts

structure World (ι : Type) where
  inner : Inner
  phase : ι → Phase
  /-- Snapshots taken and not sent yet, in the order in which they were taken. -/
  held : List (ι × LogRow)
  /-- What the writer's queue has received, with the wall clock of each op. -/
  sent : List (LogRow × ℤ)

/-- One part of one call, with the readings of the two clocks. -/
structure Act (ι : Type) where
  task : ι
  now : ℕ
  ts : ℤ

namespace World

variable {ι : Type} [DecidableEq ι]

def start (inner : Inner) : World ι := ⟨inner, fun _ => .ready, [], []⟩

def heldRows (st : World ι) : List LogRow := st.held.map Prod.snd

def sentRows (st : World ι) : List LogRow := st.sent.map Prod.fst

/-- A critical section of call `i` under the write lock. -/
def lock (i : ι) (now : ℕ) (result : Inner × Outcome) (st : World ι) : World ι :=
  { st with
    inner := result.1
    phase := Function.update st.phase i .released
    held := st.held ++ (result.2.rows now).map fun r => (i, r) }

def enter (store : DeviceStore) (i : ι) (now : ℕ) (c : Call) (st : World ι) : World ι :=
  match c with
  | .touchIp (.v6 _) => { st with phase := Function.update st.phase i .released }
  | .touchIp (.v4 ip) =>
    if touchDue ip now st.inner then
      { st with phase := Function.update st.phase i (.checked ip now) }
    else { st with phase := Function.update st.phase i .released }
  | c => st.lock i now (c.exec store now st.inner)

def step (store : DeviceStore) (calls : ι → Call) (a : Act ι) (st : World ι) : World ι :=
  match st.phase a.task with
  | .ready => st.enter store a.task a.now (calls a.task)
  | .checked ip now => st.lock a.task now (touchLocked ip now st.inner)
  | .released =>
    match st.held.find? fun e => e.1 = a.task with
    | none => st
    | some e =>
      { st with
        held := st.held.eraseP fun e => e.1 = a.task
        sent := st.sent ++ [(e.2, a.ts)] }

/-- All calls that have begun have returned: none stands between its two locks, and none holds a
snapshot. -/
def Quiet (st : World ι) : Prop := st.held = [] ∧ ∀ i ip now, st.phase i ≠ .checked ip now

/-- What a step can be. -/
inductive Moved (store : DeviceStore) (st : World ι) (a : Act ι) : World ι → Prop
  | aside (phase : ι → Phase) : Moved store st a { st with phase := phase }
  | locked (now : ℕ) (result : Inner × Outcome)
      (heffect : ∀ rows, Tracks store.fingerprint st.inner.byMac rows →
        Effect store.fingerprint rows now st.inner.byMac result.1.byMac result.2) :
      Moved store st a (st.lock a.task now result)
  | delivered (before after : List (ι × LogRow)) (r : LogRow)
      (hheld : st.held = before ++ (a.task, r) :: after) :
      Moved store st a { st with held := before ++ after, sent := st.sent ++ [(r, a.ts)] }

variable {store : DeviceStore} {calls : ι → Call}

theorem enter_moved (a : Act ι) (c : Call) (st : World ι) :
    Moved store st a (st.enter store a.task a.now c) := by
  cases c with
  | touchIp ip =>
    cases ip with
    | v6 _ => exact .aside _
    | v4 ip =>
      rw [enter]
      split
      · exact .aside _
      · exact .aside _
  | observe ip mac =>
    exact .locked a.now _ fun rows h => exec_effect h (.observe ip mac) a.now
  | observeNamed mac hostname =>
    exact .locked a.now _ fun rows h => exec_effect h (.observeNamed mac hostname) a.now
  | observeNameForIp ip hostname =>
    exact .locked a.now _ fun rows h => exec_effect h (.observeNameForIp ip hostname) a.now

theorem step_moved (a : Act ι) (st : World ι) : Moved store st a (step store calls a st) := by
  rw [step]
  cases st.phase a.task with
  | ready => exact enter_moved a (calls a.task) st
  | checked ip now => exact .locked now _ fun rows h => touchLocked_effect h ip now
  | released =>
    dsimp only
    cases hfind : st.held.find? fun e => e.1 = a.task with
    | none => exact .aside st.phase
    | some e =>
      obtain ⟨hkey, before, after, hheld, hbefore⟩ := List.find?_eq_some_iff_append.mp hfind
      obtain ⟨i, r⟩ := e
      obtain rfl : i = a.task := of_decide_eq_true hkey
      have herase : (st.held.eraseP fun e => e.1 = a.task) = before ++ after := by
        rw [hheld, List.eraseP_append_right _ (by simpa using hbefore)]
        simp
      rw [herase]
      exact .delivered before after r hheld

theorem heldRows_lock (i : ι) (now : ℕ) (result : Inner × Outcome) (st : World ι) :
    (st.lock i now result).heldRows = st.heldRows ++ result.2.rows now := by
  simp [lock, heldRows, Function.comp_def]

/-- The log since the world began: `taken` are the rows of its write slots, in their order. -/
structure Follows (fingerprint : Fields → UInt64) (base taken : List LogRow) (st : World ι) :
    Prop where
  tracks : Tracks fingerprint st.inner.byMac (base ++ taken)
  spaced : Spaced fingerprint lastSeenHeartbeat (base ++ taken)
  accounted : (st.sentRows ++ st.heldRows).Perm taken

namespace Follows

variable {fingerprint : Fields → UInt64} {base taken : List LogRow} {st : World ι}

theorem locked (h : Follows fingerprint base taken st) {now : ℕ} {result : Inner × Outcome}
    (heffect : ∀ rows, Tracks fingerprint st.inner.byMac rows →
      Effect fingerprint rows now st.inner.byMac result.1.byMac result.2) (i : ι) :
    Follows fingerprint base (taken ++ result.2.rows now) (st.lock i now result) := by
  have he := heffect _ h.tracks
  refine ⟨?_, ?_, ?_⟩
  · rw [← List.append_assoc]
    exact he.tracks h.tracks
  · rw [← List.append_assoc]
    exact he.spaced h.spaced
  · rw [heldRows_lock, ← List.append_assoc]
    exact h.accounted.append_right _

omit [DecidableEq ι] in
theorem delivered (h : Follows fingerprint base taken st) {i : ι} {r : LogRow}
    {before after : List (ι × LogRow)} (hheld : st.held = before ++ (i, r) :: after) (ts : ℤ) :
    Follows fingerprint base taken
      { st with held := before ++ after, sent := st.sent ++ [(r, ts)] } := by
  refine ⟨h.tracks, h.spaced, List.Perm.trans ?_ h.accounted⟩
  simp only [sentRows, heldRows, hheld, List.map_append, List.map_cons, List.map_nil,
    List.append_assoc, List.singleton_append]
  exact (List.perm_middle.symm).append_left _

end Follows

/-- Every step takes rows for the log that the log allows. -/
theorem follows_moved {base taken : List LogRow} {a : Act ι} {st st' : World ι}
    (hmoved : Moved store st a st') (h : Follows store.fingerprint base taken st) :
    ∃ rows, Follows store.fingerprint base (taken ++ rows) st' ∧
      ∀ r ∈ rows, fieldsOf st'.inner.byMac r.key = some r.value := by
  cases hmoved with
  | aside phase =>
    refine ⟨[], ?_, List.forall_mem_nil _⟩
    rw [List.append_nil]
    exact ⟨h.tracks, h.spaced, h.accounted⟩
  | locked now result heffect =>
    exact ⟨_, h.locked heffect a.task, fun r hr => (heffect _ h.tracks).fieldsOf_of_mem_rows hr⟩
  | delivered before after r hheld =>
    refine ⟨[], ?_, List.forall_mem_nil _⟩
    rw [List.append_nil]
    exact h.delivered hheld a.ts

omit [DecidableEq ι] in
theorem follows_start {base : List LogRow} {inner : Inner}
    (htracks : Tracks store.fingerprint inner.byMac base)
    (hspaced : Spaced store.fingerprint lastSeenHeartbeat base) :
    Follows store.fingerprint base [] (start inner : World ι) where
  tracks := by rwa [List.append_nil]
  spaced := by rwa [List.append_nil]
  accounted := .refl []

end World

end Netwatch.Devices
