import Netwatch.Devices.Concurrent

/-!
# The last row sent

The write slot is taken under the lock, the row is sent after it. Two calls can send their rows
the other way round, and then an old state is the last one in the queue.

## Main definitions

- `World.LastIsCurrent` — the last op of a device carries its current fields
- `World.Orderly` — the newest row of a device is not sent before an older, different one

## Main results

- `lastIsCurrent_run` — orderly runs leave the current fields in the last row
- `last_not_current` — two calls for which the last row is out of date
-/

namespace Netwatch.Devices.World

open RustStd Debounce Interleaving

variable {ι : Type} [DecidableEq ι] {store : DeviceStore} {calls : ι → Call}

def ops (st : World ι) : List Db.DeviceOp := st.sent.map fun e => e.1.op e.2

/-- The last op sent for a MAC. -/
def lastOp (m : Str) (st : World ι) : Option Db.DeviceOp :=
  (st.ops.filter fun op => op.mac = m).getLast?

def LastIsCurrent (st : World ι) : Prop :=
  ∀ m op, st.lastOp m = some op → ∃ d, st.inner.byMac.lookup m = some d ∧
    op.ip = d.ip.map Ipv4Addr.toText ∧ op.hostname = d.hostname ∧ op.vendor = d.vendor ∧
    op.randomized = d.randomized

/-- If call `i` sends next, it does not send the newest row of its device while an older row
of it with other fields is held back. -/
def InOrder (i : ι) (st : World ι) : Prop :=
  ∀ before after r, st.held = before ++ (i, r) :: after →
    (∃ e ∈ after, e.2.key = r.key) ∨ ∀ e ∈ before, e.2.key = r.key → e.2.value = r.value

/-- The hash tells the fields of every device before the step from those after it. -/
def Distinct (fingerprint : Fields → UInt64) (devices devices' : DeviceMap) : Prop :=
  ∀ m f f', fieldsOf devices m = some f → fieldsOf devices' m = some f' →
    fingerprint f = fingerprint f' → f = f'

structure Orderly (store : DeviceStore) (calls : ι → Call) (a : Act ι) (st : World ι) : Prop where
  inOrder : InOrder a.task st
  distinct : Distinct store.fingerprint st.inner.byMac (step store calls a st).inner.byMac

/-- The newest row of a MAC, held or else sent. -/
def newest (m : Str) (st : World ι) : Option LogRow :=
  (latest m st.heldRows).or (latest m st.sentRows)

/-- The newest row of every device carries its current fields. -/
structure UpToDate (fingerprint : Fields → UInt64) (st : World ι) : Prop where
  tracks : ∃ rows, Tracks fingerprint st.inner.byMac rows
  current : ∀ m r, newest m st = some r → fieldsOf st.inner.byMac m = some r.value

theorem upToDate_locked {fingerprint : Fields → UInt64} {st : World ι}
    (h : UpToDate fingerprint st) {now : ℕ} {result : Inner × Outcome}
    (heffect : ∀ rows, Tracks fingerprint st.inner.byMac rows →
      Effect fingerprint rows now st.inner.byMac result.1.byMac result.2)
    (hdistinct : Distinct fingerprint st.inner.byMac result.1.byMac) (i : ι) :
    UpToDate fingerprint (st.lock i now result) := by
  obtain ⟨rows, htracks⟩ := h.tracks
  have he := heffect rows htracks
  refine ⟨⟨_, he.tracks htracks⟩, ?_⟩
  intro m r hnewest
  rw [newest, heldRows_lock, latest_append, Option.or_assoc] at hnewest
  cases hnew : latest m (result.2.rows now) with
  | some r' =>
    rw [hnew, Option.some_or] at hnewest
    cases hnewest
    obtain ⟨hmem, rfl⟩ := mem_of_latest hnew
    exact he.fieldsOf_of_mem_rows hmem
  | none =>
    rw [hnew, Option.none_or] at hnewest
    have hold := h.current m r hnewest
    -- without a new row of this device its fields are the old ones
    obtain ⟨hsame, -⟩ | ⟨m', f, d, hinsert, hd, hrows⟩ := he.rows_eq
    · show fieldsOf result.1.byMac m = _
      rw [hsame]
      exact hold
    · have hfields : fieldsOf result.1.byMac m =
          if m = m' then some f else fieldsOf st.inner.byMac m := by
        rw [hinsert, fieldsOf_insert, hd.fields]
      show fieldsOf result.1.byMac m = _
      by_cases hm : m = m'
      · subst hm
        rw [if_pos rfl] at hfields
        have hnot : ¬ RowDue fingerprint rows ⟨m, f, now⟩ := by
          intro hdue
          rw [report, record_of_due hdue, List.append_cancel_left_eq] at hrows
          rw [hrows, latest_singleton, if_pos rfl] at hnew
          cases hnew
        have hkept : fieldsOf st.inner.byMac m = some f := by
          by_contra hchanged
          exact hnot (rowDue_of_changed htracks hchanged
            fun old hold heq => hdistinct m old f hold hfields heq)
        rw [hfields, ← hkept]
        exact hold
      · rw [hfields, if_neg hm]
        exact hold

omit [DecidableEq ι] in
theorem upToDate_delivered {fingerprint : Fields → UInt64} {st : World ι}
    (h : UpToDate fingerprint st) {i : ι} {r : LogRow} {before after : List (ι × LogRow)}
    (hheld : st.held = before ++ (i, r) :: after) (hin : InOrder i st) (ts : ℤ) :
    UpToDate fingerprint
      { st with held := before ++ after, sent := st.sent ++ [(r, ts)] } := by
  refine ⟨h.tracks, ?_⟩
  intro m r' hnewest
  have hcurrent := h.current m
  have hbefore : st.heldRows = before.map Prod.snd ++ ([r] ++ after.map Prod.snd) := by
    simp [heldRows, hheld]
  rw [newest, hbefore, latest_append, latest_append, latest_singleton, Option.or_assoc,
    Option.or_assoc] at hcurrent
  rw [newest, heldRows, sentRows, List.map_append, List.map_append, List.map_singleton,
    latest_append, latest_append, latest_singleton, Option.or_assoc] at hnewest
  by_cases hkey : r.key = m
  · rw [if_pos hkey, Option.some_or] at hcurrent hnewest
    cases hafter : latest m (after.map Prod.snd) with
    | some a =>
      -- a newer row is still waiting, and it is the current one
      rw [hafter, Option.some_or] at hcurrent hnewest
      exact hcurrent r' hnewest
    | none =>
      rw [hafter, Option.none_or] at hcurrent hnewest
      have hr := hcurrent r rfl
      -- the row is the newest one, so no older row with other fields may come after it
      cases hearlier : latest m (before.map Prod.snd) with
      | none =>
        rw [hearlier, Option.none_or] at hnewest
        cases hnewest
        exact hr
      | some b =>
        rw [hearlier, Option.some_or] at hnewest
        cases hnewest
        obtain ⟨hmem, hbkey⟩ := mem_of_latest hearlier
        obtain ⟨e, he, rfl⟩ := List.mem_map.mp hmem
        obtain ⟨e', he', hkey'⟩ | hall := hin before after r hheld
        · have hno := latest_eq_none_iff.mp hafter e'.2 (List.mem_map_of_mem he')
          exact absurd (hkey'.trans hkey) hno
        · rw [hall e he (hbkey.trans hkey.symm)]
          exact hr
  · rw [if_neg hkey, Option.none_or] at hcurrent hnewest
    exact hcurrent r' (by rw [← Option.or_assoc] at hnewest; rw [← Option.or_assoc]; exact hnewest)

theorem upToDate_step (a : Act ι) (st : World ι) (hgood : Orderly store calls a st)
    (h : UpToDate store.fingerprint st) :
    UpToDate store.fingerprint (step store calls a st) := by
  have hmoved : Moved store st a (step store calls a st) := step_moved a st
  have hdistinct := hgood.distinct
  generalize step store calls a st = st' at hmoved hdistinct
  cases hmoved with
  | aside phase => exact ⟨h.tracks, h.current⟩
  | locked now result heffect => exact upToDate_locked h heffect hdistinct a.task
  | delivered before after r hheld => exact upToDate_delivered h hheld hgood.inOrder a.ts

omit [DecidableEq ι] in
theorem upToDate_start (known : List Db.KnownDevice) (now : ℕ) :
    UpToDate store.fingerprint (start (store.hydrate known now .empty).2 : World ι) :=
  ⟨⟨_, (loaded_hydrate known now).tracks⟩, fun _ _ hnewest => nomatch hnewest⟩

omit [DecidableEq ι] in
theorem lastOp_eq_some {st : World ι} {m : Str} {op : Db.DeviceOp} (h : st.lastOp m = some op) :
    ∃ r ts, latest m st.sentRows = some r ∧ op = LogRow.op r ts := by
  rw [lastOp, ops, List.filter_map, List.getLast?_map] at h
  obtain ⟨e, he, rfl⟩ := Option.map_eq_some_iff.mp h
  refine ⟨e.1, e.2, ?_, rfl⟩
  have hkey : ofKey m st.sentRows =
      (st.sent.filter ((fun op => decide (op.mac = m)) ∘ fun e => e.1.op e.2)).map Prod.fst := by
    rw [ofKey, sentRows, List.filter_map]
    rfl
  rw [latest, hkey, List.getLast?_map, he]
  rfl

/-- In a run whose rows are sent in the order of their write slots, as far as it matters, and
in which no two states of a device have one fingerprint, the last row of every device carries
its current fields once all calls have returned. -/
theorem lastIsCurrent_run (known : List Db.KnownDevice) (now : ℕ) (acts : List (Act ι))
    (hrun : Along (step store calls) (Orderly store calls) acts
      (start (store.hydrate known now .empty).2))
    (hquiet : Quiet (run (step store calls) acts (start (store.hydrate known now .empty).2))) :
    LastIsCurrent (run (step store calls) acts (start (store.hydrate known now .empty).2)) := by
  have h := hrun.invariant upToDate_step (upToDate_start known now)
  intro m op hop
  obtain ⟨r, ts, hlast, rfl⟩ := lastOp_eq_some hop
  have hnewest : newest m (run (step store calls) acts
      (start (store.hydrate known now .empty).2)) = some r := by
    rw [newest, heldRows, hquiet.1, List.map_nil, latest_nil, Option.none_or, hlast]
  obtain ⟨d, hd, hfields⟩ := fieldsOf_eq_some_iff.mp (h.current m r hnewest)
  refine ⟨d, hd, ?_⟩
  simp only [LogRow.op, persist, ← hfields, and_self]

/-! ### Two calls for one device -/

theorem distinct_insert {fingerprint : Fields → UInt64} {devices : DeviceMap} {m : Str}
    {d : Device}
    (h : ∀ f, fieldsOf devices m = some f → fingerprint f = fingerprint d.toFields →
      f = d.toFields) :
    Distinct fingerprint devices (devices.insert m d) := by
  intro m' f f' hf hf' heq
  rw [fieldsOf_insert] at hf'
  split at hf'
  · next hm =>
    cases hf'
    exact h f (hm ▸ hf) heq
  · exact Option.some.inj (hf.symm.trans hf')

omit [DecidableEq ι] in
theorem inOrder_of_length_le_one {st : World ι} (h : st.held.length ≤ 1) (i : ι) :
    InOrder i st := by
  intro before after r hheld
  rw [hheld, List.length_append, List.length_cons] at h
  obtain rfl := List.length_eq_zero_iff.mp (by omega : before.length = 0)
  exact .inr (List.forall_mem_nil _)

/-- The kitchen device is seen with one address and then with another. -/
def addressChange (second : Bool) : Call :=
  .observe (Ipv4Addr.ofOctets 192 168 1 (if second then 6 else 5)) kitchenMac

def emptyWorld : World Bool := start (plainStore.hydrate [] 0 .empty).2

theorem quiet_of_released {st : World Bool} (hheld : st.held = [])
    (hfirst : st.phase false = .released) (hsecond : st.phase true = .released) : Quiet st := by
  refine ⟨hheld, fun i ip now h => ?_⟩
  cases i with
  | false =>
    rw [hfirst] at h
    cases h
  | true =>
    rw [hsecond] at h
    cases h

theorem lastIsCurrent_run_example :
    LastIsCurrent (run (step plainStore addressChange)
      [⟨false, 0, 0⟩, ⟨false, 0, 0⟩, ⟨true, 1, 0⟩, ⟨true, 1, 0⟩] emptyWorld) := by
  let before : Device := ⟨{ ip := some (Ipv4Addr.ofOctets 192 168 1 5) }, kitchenMac,
    some (plainStore.fingerprint { ip := some (Ipv4Addr.ofOctets 192 168 1 5) }), some 0⟩
  let after : Device := ⟨{ ip := some (Ipv4Addr.ofOctets 192 168 1 6) }, kitchenMac,
    some (plainStore.fingerprint { ip := some (Ipv4Addr.ofOctets 192 168 1 6) }), some 1⟩
  have hsame : ∀ devices, Distinct plainStore.fingerprint devices devices :=
    fun devices m f f' hf hf' _ => Option.some.inj (hf.symm.trans hf')
  have hfirst : Distinct plainStore.fingerprint ∅ ((∅ : DeviceMap).insert kitchenMac before) :=
    distinct_insert fun f hf => nomatch hf
  refine lastIsCurrent_run [] 0 _ ⟨⟨?_, ?_⟩, ⟨?_, ?_⟩, ⟨?_, ?_⟩, ⟨?_, ?_⟩, trivial⟩
    (quiet_of_released rfl rfl rfl)
  · exact inOrder_of_length_le_one (by decide) false
  · exact hfirst
  · exact inOrder_of_length_le_one (by decide) false
  · exact hsame _
  · exact inOrder_of_length_le_one (by decide) true
  · refine distinct_insert (m := kitchenMac) (d := after) fun f hf heq => ?_
    have hf' : some before.toFields = some f := hf
    cases hf'
    exact absurd heq (by decide)
  · exact inOrder_of_length_le_one (by decide) true
  · exact hsame _

/-- Both calls take their write slots before either row is sent, and the rows are sent the
other way round: the queue ends with the old address. -/
theorem last_not_current :
    Quiet (run (step plainStore addressChange)
      [⟨false, 0, 0⟩, ⟨true, 1, 0⟩, ⟨true, 1, 0⟩, ⟨false, 0, 0⟩] emptyWorld) ∧
    ¬ LastIsCurrent (run (step plainStore addressChange)
      [⟨false, 0, 0⟩, ⟨true, 1, 0⟩, ⟨true, 1, 0⟩, ⟨false, 0, 0⟩] emptyWorld) := by
  refine ⟨quiet_of_released rfl rfl rfl, fun h => ?_⟩
  obtain ⟨d, hd, hip, -⟩ := h kitchenMac
    ⟨kitchenMac, some "192.168.1.5".toList, none, none, false, 0⟩ rfl
  have hnow : some d = some ⟨{ ip := some (Ipv4Addr.ofOctets 192 168 1 6) }, kitchenMac,
    some (plainStore.fingerprint { ip := some (Ipv4Addr.ofOctets 192 168 1 6) }), some 1⟩ :=
    hd.symm.trans rfl
  cases hnow
  exact absurd hip (by decide)

end Netwatch.Devices.World
