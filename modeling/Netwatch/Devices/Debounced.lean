import Netwatch.Devices.Concurrent

/-!
# Debouncing

What the registry writes: every change at once, and otherwise one row for each device and
heartbeat.

## Main results

- `debounce_exact` — over any history of calls, and any interleaving of heartbeats
-/

namespace Netwatch.Devices

open RustStd Debounce Interleaving

/-- Every device is marked with the fingerprint of its current fields. -/
def Marked (fingerprint : Fields → UInt64) (devices : DeviceMap) : Prop :=
  ∀ m d, devices.lookup m = some d → d.writtenFingerprint = some (fingerprint d.toFields)

/-- The field tuples of a registry. -/
def tuples (devices : DeviceMap) : Set Fields := {f | ∃ m, fieldsOf devices m = some f}

/-- A row that follows another one of the same device. -/
def Justified (r r' : LogRow) : Prop :=
  r.value ≠ r'.value ∨ r.time + lastSeenHeartbeat ≤ r'.time

/-- Two rows of the same device, however they are ordered. -/
def Spread (r r' : LogRow) : Prop := Justified r r' ∨ Justified r' r

theorem justified_of_spaced {fingerprint : Fields → UInt64} {rows : List LogRow}
    (h : Spaced fingerprint lastSeenHeartbeat rows) (m : Str) :
    (ofKey m rows).IsChain Justified := by
  refine (h m).imp ?_
  intro r r' hapart
  obtain hne | htime := hapart
  · exact .inl fun heq => hne (congrArg fingerprint heq)
  · exact .inr htime

theorem persisted_of_changed {store : DeviceStore} {st : History}
    (h : History.Debounced store.fingerprint st) (c : TimedCall)
    (hdistinct : Set.InjOn store.fingerprint
      (tuples st.inner.byMac ∪ tuples (st.step store c).inner.byMac))
    {m : Str} (hchanged : fieldsOf (st.step store c).inner.byMac m ≠ fieldsOf st.inner.byMac m) :
    ∃ f, fieldsOf (st.step store c).inner.byMac m = some f ∧
      (st.step store c).rows = st.rows ++ [⟨m, f, c.now⟩] := by
  have heffect := exec_effect h.tracks c.call c.now
  obtain ⟨hsame, -⟩ | ⟨m', f, d, hinsert, hd, hrows⟩ := heffect.rows_eq
  · exact absurd (by rw [History.step, hsame]) hchanged
  · have hfields : fieldsOf (st.step store c).inner.byMac m =
        if m = m' then some f else fieldsOf st.inner.byMac m := by
      rw [History.step, hinsert, fieldsOf_insert, hd.fields]
    by_cases hm : m = m'
    · subst hm
      rw [if_pos rfl] at hfields
      refine ⟨f, hfields, ?_⟩
      have hdue : RowDue store.fingerprint st.rows ⟨m, f, c.now⟩ := by
        refine rowDue_of_changed h.tracks (fun heq => hchanged (hfields.trans heq.symm)) ?_
        intro old hold heq
        exact hdistinct (.inl ⟨m, hold⟩) (.inr ⟨m, hfields⟩) heq
      show st.rows ++ (c.call.exec store c.now st.inner).2.rows c.now = _
      rw [hrows, report, record_of_due hdue]
    · rw [if_neg hm] at hfields
      exact absurd hfields hchanged

/-! ### Heartbeats of one device at the same time -/

theorem fieldsOf_touchLocked (ip : Ipv4Addr) (now : ℕ) (s : Inner) :
    fieldsOf (touchLocked ip now s).1.byMac = fieldsOf s.byMac := by
  obtain hidle | ⟨mac, d, -, hold, -, hbeat⟩ := touchLocked_cases ip now s
  · rw [hidle]
  · funext m
    rw [hbeat, fieldsOf_insert]
    split
    · next hm =>
      rw [hm, fieldsOf, hold]
      rfl
    · rfl

namespace World

variable {ι : Type} [DecidableEq ι] {store : DeviceStore}

/-- Calls of `touch_ip` change no field. -/
theorem fieldsOf_step_touch (store : DeviceStore) (ips : ι → IpAddr) (a : Act ι) (st : World ι) :
    fieldsOf (step store (fun i => .touchIp (ips i)) a st).inner.byMac =
      fieldsOf st.inner.byMac := by
  rw [step]
  cases st.phase a.task with
  | ready =>
    show fieldsOf (enter store a.task a.now (.touchIp (ips a.task)) st).inner.byMac = _
    cases ips a.task with
    | v6 _ => rfl
    | v4 ip =>
      rw [enter]
      split <;> rfl
  | checked ip now => exact fieldsOf_touchLocked ip now st.inner
  | released =>
    dsimp only
    cases st.held.find? fun e => e.1 = a.task <;> rfl

/-- While only heartbeats are under way, every row repeats the fields of its device. -/
structure Steady (fingerprint : Fields → UInt64) (base : List LogRow)
    (fields : Str → Option Fields) (taken : List LogRow) (st : World ι) : Prop where
  follows : Follows fingerprint base taken st
  unchanged : fieldsOf st.inner.byMac = fields
  values : ∀ r ∈ taken, fields r.key = some r.value

theorem steady_step {base : List LogRow} {fields : Str → Option Fields} {ips : ι → IpAddr}
    (a : Act ι) {st : World ι} (h : ∃ taken, Steady store.fingerprint base fields taken st) :
    ∃ taken, Steady store.fingerprint base fields taken
      (step store (fun i => .touchIp (ips i)) a st) := by
  obtain ⟨taken, hsteady⟩ := h
  obtain ⟨rows, hfollows, hrows⟩ := follows_moved (step_moved a st) hsteady.follows
  have hfields := (fieldsOf_step_touch store ips a st).trans hsteady.unchanged
  refine ⟨taken ++ rows, hfollows, hfields, ?_⟩
  intro r hr
  obtain hold | hnew := List.mem_append.mp hr
  · exact hsteady.values r hold
  · rw [← hfields]
    exact hrows r hnew

theorem steady_run (store : DeviceStore) (ips : ι → IpAddr) (acts : List (Act ι))
    {base : List LogRow} {fields : Str → Option Fields} {st : World ι}
    (h : ∃ taken, Steady store.fingerprint base fields taken st) :
    ∃ taken, Steady store.fingerprint base fields taken
      (run (step store fun i => .touchIp (ips i)) acts st) := by
  exact run_invariant (I := fun st => ∃ taken, Steady store.fingerprint base fields taken st)
    (fun a _ hst => steady_step a hst) acts h

/-- The rows of one device from its last one on. -/
theorem isChain_since_latest {fingerprint : Fields → UInt64} {base taken : List LogRow}
    (h : Spaced fingerprint lastSeenHeartbeat (base ++ taken)) (m : Str) :
    ((latest m base).toList ++ ofKey m taken).IsChain (Apart fingerprint lastSeenHeartbeat) := by
  have hchain := h m
  rw [ofKey_append] at hchain
  rw [latest]
  -- only the last of the older rows stays in front
  cases hlast : (ofKey m base).getLast? with
  | none => exact hchain.right_of_append
  | some l =>
    rw [← List.dropLast_append_getLast? l hlast, List.append_assoc] at hchain
    exact hchain.right_of_append

omit [DecidableEq ι] in
/-- The heartbeats of a device are a heartbeat apart from each other and from its last row
before, in whatever order they are sent. -/
theorem Steady.spread {fingerprint : Fields → UInt64} {devices : DeviceMap}
    {base taken : List LogRow} (hbase : Tracks fingerprint devices base) {st : World ι}
    (h : Steady fingerprint base (fieldsOf devices) taken st) (m : Str) :
    ((latest m base).toList ++ ofKey m st.sentRows).IsChain Spread := by
  have hperm : (ofKey m st.sentRows ++ ofKey m st.heldRows).Perm (ofKey m taken) := by
    rw [← ofKey_append]
    exact h.follows.accounted.filter _
  have hdigest : ∀ f, fieldsOf devices m = some f →
      ∀ r ∈ (latest m base).toList ++ ofKey m taken, fingerprint r.value = fingerprint f := by
    intro f hf r hr
    obtain ⟨d, hd, rfl⟩ := fieldsOf_eq_some_iff.mp hf
    obtain ⟨-, -, l, hl, hdigest, -⟩ := hbase.known hd
    obtain hr | hr := List.mem_append.mp hr
    · rw [hl, Option.mem_toList] at hr
      cases hr
      exact hdigest
    · obtain ⟨hr, hkey⟩ := List.mem_filter.mp hr
      have hvalue := h.values r hr
      rw [of_decide_eq_true hkey, hf] at hvalue
      rw [Option.some.inj hvalue]
  have hchain := isChain_since_latest h.follows.spaced m
  cases hf : fieldsOf devices m with
  | none =>
    -- a device the registry does not know has no rows
    have hnone : ofKey m taken = [] := by
      refine List.filter_eq_nil_iff.mpr fun r hr hkey => ?_
      have hvalue := h.values r hr
      rw [of_decide_eq_true hkey, hf] at hvalue
      cases hvalue
    rw [hnone, List.perm_nil, List.append_eq_nil_iff] at hperm
    rw [hperm.1, List.append_nil]
    cases latest m base with
    | none => exact List.isChain_nil
    | some l => exact List.isChain_singleton l
  | some f =>
    -- the rows agree in their fields, so the chain keeps any two of them a heartbeat apart, and
    -- that does not depend on the order in which they are sent
    have hpairwise := pairwise_steady hchain (hdigest f hf)
    have hspread : ((latest m base).toList ++ ofKey m taken).Pairwise Spread :=
      hpairwise.imp fun htime => .inl (.inr htime)
    have hsymm : ∀ {r r' : LogRow}, Spread r r' → Spread r' r := fun hrr => hrr.symm
    rw [← (hperm.append_left _).pairwise_iff hsymm, ← List.append_assoc] at hspread
    exact (hspread.sublist (List.sublist_append_left _ _)).isChain

end World

/-- The four promises of debouncing, for a registry after `hydrate` and any calls, and for one
more call `c`. -/
structure DebounceExact (store : DeviceStore) (st : History) (c : TimedCall) : Prop where
  marked : Marked store.fingerprint st.inner.byMac
  persisted : ∀ m, fieldsOf (st.step store c).inner.byMac m ≠ fieldsOf st.inner.byMac m →
    ∃ f, fieldsOf (st.step store c).inner.byMac m = some f ∧
      (st.step store c).rows = st.rows ++ [⟨m, f, c.now⟩]
  justified : ∀ m, (ofKey m st.rows).IsChain Justified
  heartbeats : ∀ (ips : ℕ → IpAddr) (acts : List (Act ℕ)) (m : Str),
    ((latest m st.rows).toList ++ ofKey m (run (World.step store fun i => .touchIp (ips i))
      acts (.start st.inner)).sentRows).IsChain Spread

/-- The times of the calls need not even be ordered: an earlier clock value counts as no time
passed. -/
theorem debounce_exact (store : DeviceStore) (known : List Db.KnownDevice) (start : ℕ)
    (calls : List TimedCall) (c : TimedCall)
    (hdistinct : Set.InjOn store.fingerprint
      (tuples (run (History.step store) calls (.start store known start)).inner.byMac ∪
        tuples (run (History.step store) (calls ++ [c]) (.start store known start)).inner.byMac)) :
    DebounceExact store (run (History.step store) calls (.start store known start)) c := by
  have h := History.debounced_run store calls known start
  rw [run_append] at hdistinct
  refine ⟨?_, ?_, justified_of_spaced h.spaced, ?_⟩
  · intro m d hlookup
    exact (h.tracks.known hlookup).2.1
  · intro m hchanged
    exact persisted_of_changed h c hdistinct hchanged
  · intro ips acts m
    obtain ⟨taken, hsteady⟩ := World.steady_run store ips acts
      ⟨[], World.follows_start h.tracks h.spaced, rfl, List.forall_mem_nil _⟩
    exact hsteady.spread h.tracks m

theorem tuples_insert_subset (devices : DeviceMap) (m : Str) (d : Device) :
    tuples (devices.insert m d) ⊆ insert d.toFields (tuples devices) := by
  rintro f ⟨m', hf⟩
  rw [fieldsOf_insert] at hf
  split at hf
  · exact .inl (Option.some.inj hf).symm
  · exact .inr ⟨m', hf⟩

theorem tuples_empty : tuples ∅ = ∅ := Set.eq_empty_of_forall_notMem fun _ ⟨_, hf⟩ => nomatch hf

theorem debounce_exact_example :
    DebounceExact plainStore
      (run (History.step plainStore) [⟨.observe 5 kitchenMac, 0⟩] (.start plainStore [] 0))
      ⟨.observeNamed kitchenMac "kitchen-pi".toList, 1⟩ := by
  let unnamed : Fields := { ip := some 5 }
  let named : Fields := { ip := some 5, hostname := some "kitchen-pi".toList }
  let seen : Device := ⟨unnamed, kitchenMac, some 12, some 0⟩
  have hfirst : (run (History.step plainStore) [⟨.observe 5 kitchenMac, 0⟩]
      (.start plainStore [] 0)).inner.byMac = (∅ : DeviceMap).insert kitchenMac seen := rfl
  have hsecond : (run (History.step plainStore) ([⟨.observe 5 kitchenMac, 0⟩] ++
      [⟨.observeNamed kitchenMac "kitchen-pi".toList, 1⟩]) (.start plainStore [] 0)).inner.byMac =
      ((∅ : DeviceMap).insert kitchenMac seen).insert kitchenMac
        ⟨named, kitchenMac, some 13, some 1⟩ := rfl
  have htuples : tuples ((∅ : DeviceMap).insert kitchenMac seen) ⊆ {unnamed} := by
    have hsub := tuples_insert_subset ∅ kitchenMac seen
    rwa [tuples_empty, insert_empty_eq] at hsub
  have hpair : Set.InjOn plainStore.fingerprint {named, unnamed} := by
    rw [Set.injOn_pair]
    exact fun heq => absurd heq (by decide)
  refine debounce_exact plainStore [] 0 _ _ (hpair.mono ?_)
  rw [hfirst, hsecond]
  refine Set.union_subset (htuples.trans (Set.subset_insert named _)) ?_
  exact (tuples_insert_subset _ kitchenMac _).trans (Set.insert_subset_insert htuples)

end Netwatch.Devices
