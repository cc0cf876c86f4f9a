import Netwatch.Debounce.Log
import Netwatch.Devices.Registry
import Netwatch.Interleaving.Run

/-!
# The registry as a debounced log

The two bookkeeping fields of a device are a summary of the last row persisted for it. With
that row in place of them, every locked update is one report to a debounced log, or nothing.

## Main definitions

- `Tracks` — the devices against the rows persisted for them
- `Effect` — what a call does: nothing to the devices, or a report of one of them

## Main results

- `exec_effect`, `touchLocked_effect` — every call is of this form
- `Effect.tracks` — the registry follows the log
-/

namespace Netwatch.Devices

open RustStd Debounce

abbrev LogRow := Debounce.Row Str Fields

abbrev DeviceMap := HashMap Str Device

/-- The rows a call persists, timed by the clock value it read. -/
def Outcome.rows (o : Outcome) (now : ℕ) : List LogRow :=
  o.write.toList.map fun d => ⟨d.mac, d.toFields, now⟩

variable {fingerprint : Fields → UInt64}

/-- The bookkeeping fields of every device agree with its last row. -/
structure Tracks (fingerprint : Fields → UInt64) (devices : DeviceMap) (rows : List LogRow) :
    Prop where
  known : ∀ {m d}, devices.lookup m = some d → d.mac = m ∧
    d.writtenFingerprint = some (fingerprint d.toFields) ∧
    ∃ l, latest m rows = some l ∧ fingerprint l.value = fingerprint d.toFields ∧
      d.lastSeenWritten = some l.time
  unknown : ∀ {m}, devices.lookup m = none → latest m rows = none

abbrev RowDue (fingerprint : Fields → UInt64) (rows : List LogRow) (r : LogRow) : Prop :=
  Due fingerprint lastSeenHeartbeat (latest r.key rows) r

abbrev report (fingerprint : Fields → UInt64) (r : LogRow) (rows : List LogRow) :
    List LogRow :=
  record fingerprint lastSeenHeartbeat r rows

/-- `d` is what the report `r` leaves in the registry. -/
structure Bookkept (fingerprint : Fields → UInt64) (rows : List LogRow) (r : LogRow)
    (d : Device) : Prop where
  mac : d.mac = r.key
  fields : d.toFields = r.value
  written : d.writtenFingerprint = some (fingerprint r.value)
  seen : ∃ l, latest r.key (report fingerprint r rows) = some l ∧ d.lastSeenWritten = some l.time

/-- The fields the registry holds for a MAC. -/
def fieldsOf (devices : DeviceMap) (m : Str) : Option Fields :=
  (devices.lookup m).map Device.toFields

theorem fieldsOf_eq_some_iff {devices : DeviceMap} {m : Str} {f : Fields} :
    fieldsOf devices m = some f ↔ ∃ d, devices.lookup m = some d ∧ d.toFields = f :=
  Option.map_eq_some_iff

theorem fieldsOf_insert (devices : DeviceMap) (m m' : Str) (d : Device) :
    fieldsOf (devices.insert m d) m' = if m' = m then some d.toFields else fieldsOf devices m' := by
  rw [fieldsOf, fieldsOf, HashMap.lookup_insert]
  split <;> rfl

/-- A call leaves the devices alone, or it reports one of them. -/
inductive Effect (fingerprint : Fields → UInt64) (rows : List LogRow) (now : ℕ)
    (devices : DeviceMap) : DeviceMap → Outcome → Prop
  | idle : Effect fingerprint rows now devices devices {}
  | report (m : Str) (f : Fields) (d : Device) (o : Outcome)
      (hd : Bookkept fingerprint rows ⟨m, f, now⟩ d)
      (hrows : o.rows now = if RowDue fingerprint rows ⟨m, f, now⟩ then [⟨m, f, now⟩] else []) :
      Effect fingerprint rows now devices (devices.insert m d) o

theorem stale_iff {now : ℕ} {d : Device} {t : ℕ} (h : d.lastSeenWritten = some t) :
    d.stale now = true ↔ t + lastSeenHeartbeat ≤ now := by
  have hpos : 0 < lastSeenHeartbeat := by decide
  rw [Device.stale, h]
  simp only [decide_eq_true_eq]
  omega

theorem rowDue_iff_of_latest {rows : List LogRow} {r l : LogRow} (h : latest r.key rows = some l) :
    RowDue fingerprint rows r ↔
      fingerprint l.value ≠ fingerprint r.value ∨ l.time + lastSeenHeartbeat ≤ r.time := by
  simp [RowDue, Due, h]

theorem rowDue_of_latest_eq_none {rows : List LogRow} {r : LogRow}
    (h : latest r.key rows = none) : RowDue fingerprint rows r := by
  simp [RowDue, Due, h]

/-- A device whose fields change gets a row, unless the new ones have the same fingerprint. -/
theorem rowDue_of_changed {devices : DeviceMap} {rows : List LogRow}
    (h : Tracks fingerprint devices rows) {r : LogRow}
    (hchanged : fieldsOf devices r.key ≠ some r.value)
    (hdistinct : ∀ f, fieldsOf devices r.key = some f →
      fingerprint f = fingerprint r.value → f = r.value) :
    RowDue fingerprint rows r := by
  cases hold : devices.lookup r.key with
  | none => exact rowDue_of_latest_eq_none (h.unknown hold)
  | some old =>
    obtain ⟨-, -, l, hl, hdigest, -⟩ := h.known hold
    have hfields : fieldsOf devices r.key = some old.toFields := by rw [fieldsOf, hold]; rfl
    refine (rowDue_iff_of_latest hl).mpr (.inl ?_)
    intro heq
    rw [hdigest] at heq
    exact hchanged (by rw [hfields, hdistinct old.toFields hfields heq])

/-- An entry that still has the bookkeeping fields of its device, or a new one. -/
def Pristine (devices : DeviceMap) (d : Device) : Prop :=
  match devices.lookup d.mac with
  | some old => d.writtenFingerprint = old.writtenFingerprint ∧
      d.lastSeenWritten = old.lastSeenWritten
  | none => d.writtenFingerprint = none ∧ d.lastSeenWritten = none

/-- `take_write_slot` decides as the log does, and records the decision. -/
theorem takeWriteSlot_spec {devices : DeviceMap} {rows : List LogRow}
    (h : Tracks fingerprint devices rows) {d : Device} (hd : Pristine devices d) (now : ℕ) :
    ((d.takeWriteSlot fingerprint now).1 = true ↔
        RowDue fingerprint rows ⟨d.mac, d.toFields, now⟩) ∧
      Bookkept fingerprint rows ⟨d.mac, d.toFields, now⟩
        (d.takeWriteSlot fingerprint now).2 := by
  -- the device has kept what its last row says
  have hdue : (d.writtenFingerprint ≠ some (fingerprint d.toFields) ∨ d.stale now = true) ↔
      RowDue fingerprint rows ⟨d.mac, d.toFields, now⟩ := by
    rw [Pristine] at hd
    cases hold : devices.lookup d.mac with
    | none =>
      rw [hold] at hd
      simp only [hd.1, ne_eq, reduceCtorEq, not_false_eq_true, true_or, true_iff]
      exact rowDue_of_latest_eq_none (h.unknown hold)
    | some old =>
      rw [hold] at hd
      obtain ⟨-, hwritten, l, hl, hdigest, hseen⟩ := h.known hold
      rw [rowDue_iff_of_latest hl, stale_iff (hd.2.trans hseen), hd.1, hwritten, hdigest,
        ne_eq, Option.some.injEq]
  by_cases hslot : d.writtenFingerprint ≠ some (fingerprint d.toFields) ∨ d.stale now = true
  · have htake : d.takeWriteSlot fingerprint now = (true, { d with
        writtenFingerprint := some (fingerprint d.toFields)
        lastSeenWritten := some now }) := if_pos hslot
    rw [htake]
    refine ⟨by simp only [true_iff]; exact hdue.mp hslot, rfl, rfl, rfl, ?_⟩
    refine ⟨⟨d.mac, d.toFields, now⟩, ?_, rfl⟩
    rw [report, record_of_due (hdue.mp hslot), latest_append_singleton, if_pos rfl]
  · -- the last row already has the fingerprint, and stays the last
    have htake : d.takeWriteSlot fingerprint now = (false, d) := if_neg hslot
    have hnot := fun hrow => hslot (hdue.mpr hrow)
    rw [htake]
    refine ⟨by simp only [Bool.false_eq_true, false_iff]; exact hnot, rfl, rfl, ?_, ?_⟩
    · simpa using (not_or.mp hslot).1
    · rw [report, record_of_not_due hnot]
      rw [Pristine] at hd
      cases hold : devices.lookup d.mac with
      | none => exact absurd (rowDue_of_latest_eq_none (h.unknown hold)) hnot
      | some old =>
        rw [hold] at hd
        obtain ⟨-, -, l, hl, -, hseen⟩ := h.known hold
        exact ⟨l, hl, hd.2.trans hseen⟩

theorem tracks_insert {devices : DeviceMap} {rows : List LogRow}
    (h : Tracks fingerprint devices rows) {r : LogRow} {d : Device}
    (hd : Bookkept fingerprint rows r d) :
    Tracks fingerprint (devices.insert r.key d) (report fingerprint r rows) := by
  constructor
  · intro m d' hlookup
    obtain ⟨rfl, rfl⟩ | ⟨hm, hlookup⟩ := HashMap.of_lookup_insert hlookup
    · obtain ⟨l, hl, hseen⟩ := hd.seen
      obtain ⟨l', hl', hdigest⟩ := exists_latest_record fingerprint lastSeenHeartbeat r rows
      obtain rfl : l = l' := Option.some.inj (hl.symm.trans hl')
      rw [hd.fields]
      exact ⟨hd.mac, hd.written, l, hl, hdigest, hseen⟩
    · rw [report, latest_record_of_ne (fun hkey => hm hkey.symm)]
      exact h.known hlookup
  · intro m hlookup
    by_cases hm : m = r.key
    · rw [hm, AList.lookup_insert] at hlookup
      cases hlookup
    · rw [AList.lookup_insert_ne hm] at hlookup
      rw [report, latest_record_of_ne (fun hkey => hm hkey.symm)]
      exact h.unknown hlookup

/-- The entry of a MAC with other fields, or a new entry. -/
theorem pristine_getD {devices : DeviceMap} {m : Str} (init : Device)
    (hinit : init.writtenFingerprint = none ∧ init.lastSeenWritten = none) {d : Device}
    (hmac : d.mac = m)
    (hwritten : d.writtenFingerprint = ((devices.lookup m).getD init).writtenFingerprint)
    (hseen : d.lastSeenWritten = ((devices.lookup m).getD init).lastSeenWritten) :
    Pristine devices d := by
  rw [Pristine, hmac, hwritten, hseen]
  cases devices.lookup m with
  | none => exact hinit
  | some old => exact ⟨rfl, rfl⟩

theorem Tracks.mac_getD {devices : DeviceMap} {rows : List LogRow}
    (h : Tracks fingerprint devices rows) {m : Str} {init : Device} (hinit : init.mac = m) :
    ((devices.lookup m).getD init).mac = m :=
  Devices.mac_getD hinit fun _ hold => (h.known hold).1

/-- An update that ends with `take_write_slot`. -/
theorem effect_of_slot {devices : DeviceMap} {rows : List LogRow}
    (h : Tracks fingerprint devices rows) {m : Str} {d : Device} (hmac : d.mac = m)
    (hd : Pristine devices d) {now : ℕ} {o : Outcome} {w : Device}
    (hw : w.mac = d.mac ∧ w.toFields = d.toFields)
    (ho : o.write = if (d.takeWriteSlot fingerprint now).1 then some w else none) :
    Effect fingerprint rows now devices
      (devices.insert m (d.takeWriteSlot fingerprint now).2) o := by
  subst hmac
  obtain ⟨hslot, hkept⟩ := takeWriteSlot_spec h hd now
  refine .report d.mac d.toFields _ o hkept ?_
  rw [Outcome.rows, ho]
  by_cases hdue : RowDue fingerprint rows ⟨d.mac, d.toFields, now⟩
  · simp [hslot.mpr hdue, hdue, hw.1, hw.2]
  · have hno : (d.takeWriteSlot fingerprint now).1 = false := by
      simpa using fun htrue => hdue (hslot.mp htrue)
    simp [hno, hdue]

variable {store : DeviceStore} {s : Inner} {rows : List LogRow}

theorem observe_effect (h : Tracks store.fingerprint s.byMac rows) (ip : Ipv4Addr) (mac : Str)
    (now : ℕ) :
    Effect store.fingerprint rows now s.byMac (store.observe ip mac now s).1.byMac
      (store.observe ip mac now s).2 := by
  rw [DeviceStore.observe]
  cases Oui.normalize mac with
  | none => exact .idle
  | some m =>
    have hmac : ((s.byMac.lookup m).getD { mac := m }).mac = m := h.mac_getD rfl
    apply effect_of_slot h
    · exact hmac
    · exact pristine_getD { mac := m } ⟨rfl, rfl⟩ hmac rfl rfl
    · exact ⟨rfl, rfl⟩
    · rfl

theorem observeNamed_effect (h : Tracks store.fingerprint s.byMac rows) (mac hostname : Str)
    (now : ℕ) :
    Effect store.fingerprint rows now s.byMac (store.observeNamed mac hostname now s).1.byMac
      (store.observeNamed mac hostname now s).2 := by
  rw [DeviceStore.observeNamed]
  cases Oui.normalize mac with
  | none => exact .idle
  | some m =>
    cases sanitizeHostname hostname with
    | none => exact .idle
    | some name =>
      have hmac : ((s.byMac.lookup m).getD { mac := m }).mac = m := h.mac_getD rfl
      apply effect_of_slot h
      · exact hmac
      · exact pristine_getD { mac := m } ⟨rfl, rfl⟩ hmac rfl rfl
      · exact takeWriteSlot_keeps store.fingerprint now _
      · rfl

theorem observeNameForIp_effect (h : Tracks store.fingerprint s.byMac rows) (ip : Ipv4Addr)
    (hostname : Str) (now : ℕ) :
    Effect store.fingerprint rows now s.byMac
      (store.observeNameForIp ip hostname now s).1.byMac
      (store.observeNameForIp ip hostname now s).2 := by
  rw [DeviceStore.observeNameForIp]
  cases sanitizeHostname hostname with
  | none => exact .idle
  | some name =>
    cases s.ipToMac.lookup ip with
    | none => exact .idle
    | some m =>
      have hmac : ((s.byMac.lookup m).getD { mac := m, ip := some ip }).mac = m := h.mac_getD rfl
      apply effect_of_slot h
      · exact hmac
      · exact pristine_getD { mac := m, ip := some ip } ⟨rfl, rfl⟩ hmac rfl rfl
      · exact takeWriteSlot_keeps store.fingerprint now _
      · rfl

/-- The heartbeat of `touch_ip` does not go through `take_write_slot`. It is a report all the
same, because the fields it repeats have the fingerprint written last. -/
theorem touchLocked_effect {fingerprint : Fields → UInt64}
    (h : Tracks fingerprint s.byMac rows) (ip : Ipv4Addr) (now : ℕ) :
    Effect fingerprint rows now s.byMac (touchLocked ip now s).1.byMac
      (touchLocked ip now s).2 := by
  obtain hidle | ⟨m, d, -, hold, hstale, hbeat⟩ := touchLocked_cases ip now s
  · rw [hidle]
    exact .idle
  · obtain ⟨hmac, hwritten, l, hl, hdigest, hseen⟩ := h.known hold
    have hdue : RowDue fingerprint rows ⟨m, d.toFields, now⟩ :=
      (rowDue_iff_of_latest hl).mpr (.inr ((stale_iff hseen).mp hstale))
    rw [hbeat]
    refine .report m d.toFields _ _ ⟨hmac, rfl, hwritten, ?_⟩ ?_
    · refine ⟨⟨m, d.toFields, now⟩, ?_, rfl⟩
      rw [report, record_of_due hdue, latest_append_singleton, if_pos rfl]
    · rw [if_pos hdue, ← hmac]
      rfl

theorem touchIp_effect {fingerprint : Fields → UInt64} (h : Tracks fingerprint s.byMac rows)
    (ip : IpAddr) (now : ℕ) :
    Effect fingerprint rows now s.byMac (touchIp ip now s).1.byMac (touchIp ip now s).2 := by
  obtain hidle | ⟨v4, hlocked⟩ := touchIp_cases ip now s
  · rw [hidle]
    exact .idle
  · rw [hlocked]
    exact touchLocked_effect h v4 now

theorem exec_effect (h : Tracks store.fingerprint s.byMac rows) (c : Call) (now : ℕ) :
    Effect store.fingerprint rows now s.byMac (c.exec store now s).1.byMac
      (c.exec store now s).2 := by
  cases c with
  | observe ip mac => exact observe_effect h ip mac now
  | observeNamed mac hostname => exact observeNamed_effect h mac hostname now
  | observeNameForIp ip hostname => exact observeNameForIp_effect h ip hostname now
  | touchIp ip => exact touchIp_effect h ip now

namespace Effect

variable {fingerprint : Fields → UInt64} {devices devices' : DeviceMap} {now : ℕ}
  {o : Outcome}

/-- The rows of a call are those that the log takes. -/
theorem rows_eq (he : Effect fingerprint rows now devices devices' o) :
    (devices' = devices ∧ o.rows now = []) ∨
      ∃ m f d, devices' = devices.insert m d ∧ Bookkept fingerprint rows ⟨m, f, now⟩ d ∧
        rows ++ o.rows now = Devices.report fingerprint ⟨m, f, now⟩ rows := by
  cases he with
  | idle => exact .inl ⟨rfl, rfl⟩
  | report m f d o hd hrows =>
    refine .inr ⟨m, f, d, rfl, hd, ?_⟩
    rw [hrows, Devices.report, record]
    split
    · rfl
    · exact List.append_nil rows

theorem tracks (he : Effect fingerprint rows now devices devices' o)
    (h : Tracks fingerprint devices rows) :
    Tracks fingerprint devices' (rows ++ o.rows now) := by
  obtain ⟨rfl, hrows⟩ | ⟨m, f, d, rfl, hd, hrows⟩ := he.rows_eq
  · rw [hrows, List.append_nil]
    exact h
  · rw [hrows]
    exact tracks_insert h hd

theorem spaced (he : Effect fingerprint rows now devices devices' o)
    (h : Spaced fingerprint lastSeenHeartbeat rows) :
    Spaced fingerprint lastSeenHeartbeat (rows ++ o.rows now) := by
  obtain ⟨-, hrows⟩ | ⟨m, f, d, -, -, hrows⟩ := he.rows_eq
  · rw [hrows, List.append_nil]
    exact h
  · rw [hrows]
    exact spaced_record _ h

/-- A persisted row carries the fields the registry holds after the call. -/
theorem fieldsOf_of_mem_rows (he : Effect fingerprint rows now devices devices' o) {r : LogRow}
    (hr : r ∈ o.rows now) : fieldsOf devices' r.key = some r.value := by
  cases he with
  | idle => cases hr
  | report m f d o hd hrows =>
    rw [hrows] at hr
    split at hr
    · obtain rfl := List.mem_singleton.mp hr
      rw [fieldsOf_insert, if_pos rfl, hd.fields]
    · cases hr

end Effect

/-! ### Histories -/

/-- The rows that hydration counts as written: one for each device it has loaded. -/
def hydratedRows (devices : DeviceMap) (now : ℕ) : List LogRow :=
  devices.entries.map fun e => ⟨e.1, e.2.toFields, now⟩

theorem ofKey_hydratedRows (m : Str) (devices : DeviceMap) (now : ℕ) :
    ofKey m (hydratedRows devices now) =
      ((devices.lookup m).map fun d => (⟨m, d.toFields, now⟩ : LogRow)).toList := by
  obtain ⟨entries, hnodup⟩ := devices
  show ofKey m (entries.map fun e => (⟨e.1, e.2.toFields, now⟩ : LogRow)) =
    ((entries.dlookup m).map fun d => (⟨m, d.toFields, now⟩ : LogRow)).toList
  induction entries with
  | nil => rfl
  | cons e entries ih =>
    obtain ⟨k, d⟩ := e
    obtain ⟨hk, htail⟩ := List.nodupKeys_cons.mp hnodup
    have hrest := ih htail
    rw [List.map_cons, ofKey, List.filter_cons]
    by_cases hm : k = m
    · subst hm
      rw [List.dlookup_eq_none.mpr hk] at hrest
      rw [List.dlookup_cons_eq]
      simpa [ofKey] using hrest
    · rw [List.dlookup_cons_ne entries ⟨k, d⟩ (fun h => hm h.symm)]
      simpa [ofKey, hm] using hrest

theorem latest_hydratedRows (m : Str) (devices : DeviceMap) (now : ℕ) :
    latest m (hydratedRows devices now) =
      (devices.lookup m).map fun d => (⟨m, d.toFields, now⟩ : LogRow) := by
  rw [latest, ofKey_hydratedRows]
  cases devices.lookup m <;> rfl

theorem spaced_hydratedRows (devices : DeviceMap) (now : ℕ) :
    Spaced fingerprint lastSeenHeartbeat (hydratedRows devices now) := by
  intro m
  rw [ofKey_hydratedRows]
  cases devices.lookup m with
  | none => exact List.isChain_nil
  | some d => exact List.isChain_singleton _

/-- Every device counts as written when it was loaded. -/
def Loaded (fingerprint : Fields → UInt64) (now : ℕ) (devices : DeviceMap) : Prop :=
  ∀ m d, devices.lookup m = some d → d.mac = m ∧
    d.writtenFingerprint = some (fingerprint d.toFields) ∧ d.lastSeenWritten = some now

theorem loaded_hydrateRow {row : Db.KnownDevice} {now : ℕ} {s s' : Inner}
    (h : Loaded store.fingerprint now s.byMac) (hrow : store.hydrateRow now row s = some s') :
    Loaded store.fingerprint now s'.byMac := by
  obtain ⟨mac, -, rfl⟩ := Option.map_eq_some_iff.mp hrow
  intro m d hlookup
  obtain ⟨rfl, rfl⟩ | ⟨-, hlookup⟩ := HashMap.of_lookup_insert hlookup
  · exact ⟨rfl, rfl, rfl⟩
  · exact h m d hlookup

theorem loaded_hydrate (known : List Db.KnownDevice) (now : ℕ) :
    Loaded store.fingerprint now (store.hydrate known now .empty).2.byMac := by
  refine hydrate_induction store now (P := fun _ s => Loaded store.fingerprint now s.byMac) ?_ ?_
    known
  · intro m d hlookup
    cases hlookup
  · intro _ row s h
    cases hrow : store.hydrateRow now row s with
    | none => exact h
    | some s' => exact loaded_hydrateRow h hrow

theorem Loaded.tracks {now : ℕ} {devices : DeviceMap} (h : Loaded fingerprint now devices) :
    Tracks fingerprint devices (hydratedRows devices now) where
  known {m d} hlookup := by
    obtain ⟨hmac, hwritten, hseen⟩ := h m d hlookup
    exact ⟨hmac, hwritten, ⟨m, d.toFields, now⟩, by rw [latest_hydratedRows, hlookup]; rfl, rfl,
      hseen⟩
  unknown {m} hlookup := by
    rw [latest_hydratedRows, hlookup]
    rfl

structure TimedCall where
  call : Call
  now : ℕ

/-- The registry with everything it has persisted since startup. -/
structure History where
  inner : Inner
  rows : List LogRow

namespace History

def start (store : DeviceStore) (known : List Db.KnownDevice) (now : ℕ) : History :=
  let inner := (store.hydrate known now .empty).2
  ⟨inner, hydratedRows inner.byMac now⟩

def step (store : DeviceStore) (c : TimedCall) (st : History) : History :=
  let (inner, outcome) := c.call.exec store c.now st.inner
  ⟨inner, st.rows ++ outcome.rows c.now⟩

/-- What every call keeps. -/
structure Debounced (fingerprint : Fields → UInt64) (st : History) : Prop where
  tracks : Tracks fingerprint st.inner.byMac st.rows
  spaced : Spaced fingerprint lastSeenHeartbeat st.rows

theorem debounced_start (known : List Db.KnownDevice) (now : ℕ) :
    Debounced store.fingerprint (start store known now) :=
  ⟨(loaded_hydrate known now).tracks, spaced_hydratedRows _ now⟩

theorem debounced_step (c : TimedCall) {st : History} (h : Debounced store.fingerprint st) :
    Debounced store.fingerprint (step store c st) :=
  have heffect := exec_effect h.tracks c.call c.now
  ⟨heffect.tracks h.tracks, heffect.spaced h.spaced⟩

theorem debounced_run (store : DeviceStore) (calls : List TimedCall)
    (known : List Db.KnownDevice) (now : ℕ) :
    Debounced store.fingerprint (Interleaving.run (step store) calls (start store known now)) :=
  Interleaving.run_invariant (fun c _ => debounced_step c) calls (debounced_start known now)

end History

/-- A store that knows no vendor. Its hash tells addresses apart, and devices with a name from
those without. -/
def plainStore : DeviceStore where
  oui := ⟨∅⟩
  fingerprint f :=
    UInt64.ofNat ((f.ip.elim 0 fun ip => ip.toNat + 1) * 2 + if f.hostname = none then 0 else 1)

def kitchenMac : Str := "b8:27:eb:11:22:33".toList

end Netwatch.Devices
