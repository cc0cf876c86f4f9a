import Netwatch.Devices.Process

/-!
# What a restart keeps

The registry is lost when the program stops; what is left of it is the table its rows were
written to. Hydration makes a registry of the table again, so everything depends on the rows: a
new device is worth one, a changed one too unless the hash collides, and none may be lost on its
way to the table.

## Main definitions

- `newcomers` — the devices that are reported as seen for the first time
- `Survives` — what is left of a registry
- `Happening.Unclashing` — the hash notices what a call changes

## Main results

- `count_newcomers` — restarts neither repeat a first sighting nor suppress one
- `survives_restart` — devices keep what is known of them, but may lose their address
-/

namespace Netwatch.Devices

open RustStd Interleaving

section

variable {ι : Type}

def Happening.call? : Happening ι → Option Call
  | .move (.call c _ _) => some c
  | _ => none

/-- The MAC that is reported as seen for the first time. -/
def Happening.newcomer (store : DeviceStore) (e : Happening ι) (p : Process ι) : Option Str :=
  match e with
  | .move (.call c now _) => (c.exec store now p.inner).2.firstSighting.map Device.mac
  | _ => none

def newcomers (store : DeviceStore) (events : List (Happening ι)) (p : Process ι) : List Str :=
  order (Process.react store) (Happening.newcomer store) events p

/-- No device has its old fields and its new ones mistaken for each other. -/
def Call.Unclashing (store : DeviceStore) (c : Call) (now : ℕ) (s : Inner) : Prop :=
  ∀ m f f', fieldsOf s.byMac m = some f → fieldsOf (c.exec store now s).1.byMac m = some f' →
    store.fingerprint f = store.fingerprint f' → f = f'

def Move.Unclashing (store : DeviceStore) (m : Move ι) (p : Process ι) : Prop :=
  match m with
  | .call c now _ => c.Unclashing store now p.inner
  | _ => True

def Happening.Unclashing (store : DeviceStore) (e : Happening ι) (p : Process ι) : Prop :=
  match e with
  | .move m => m.Unclashing store p
  | .restart _ _ => True

end

/-- The same devices, with their names and vendors, and with no address that they did not have. -/
structure Survives (s s' : Inner) : Prop where
  known : ∀ m, m ∈ s'.byMac ↔ m ∈ s.byMac
  fields : ∀ m f, fieldsOf s.byMac m = some f → ∃ f', fieldsOf s'.byMac m = some f' ∧
    f'.hostname = f.hostname ∧ f'.vendor = f.vendor ∧ f'.randomized = f.randomized ∧
      (f'.ip = f.ip ∨ f'.ip = none)

/-! ### What a call does to a device and to its row -/

theorem mem_iff_fieldsOf {devices : DeviceMap} {m : Str} :
    m ∈ devices ↔ ∃ f, fieldsOf devices m = some f := by
  rw [← AList.lookup_isSome, Option.isSome_iff_exists]
  constructor
  · rintro ⟨d, hd⟩
    exact ⟨d.toFields, fieldsOf_eq_some_iff.mpr ⟨d, hd, rfl⟩⟩
  · rintro ⟨f, hf⟩
    obtain ⟨d, hd, -⟩ := fieldsOf_eq_some_iff.mp hf
    exact ⟨d, hd⟩

/-- At most one device changes. Its row is left out only if it was known before and its old
fields have the same hash. -/
inductive Update (fingerprint : Fields → UInt64) (devices : DeviceMap) :
    DeviceMap → Option Device → Prop
  | idle : Update fingerprint devices devices none
  | unwritten (m : Str) (d : Device) (f : Fields) (hold : fieldsOf devices m = some f)
      (hsame : fingerprint f = fingerprint d.toFields) :
      Update fingerprint devices (devices.insert m d) none
  | written (d w : Device) (hw : w.toFields = d.toFields) :
      Update fingerprint devices (devices.insert w.mac d) (some w)

theorem update_of_effect {fingerprint : Fields → UInt64} {devices devices' : DeviceMap}
    {rows : List LogRow} {now : ℕ} {o : Outcome} (h : Tracks fingerprint devices rows)
    (he : Effect fingerprint rows now devices devices' o) :
    Update fingerprint devices devices' o.write := by
  cases he with
  | idle => exact .idle
  | report m f d o hd hrows =>
    by_cases hdue : RowDue fingerprint rows ⟨m, f, now⟩
    · rw [if_pos hdue, Outcome.rows] at hrows
      cases hw : o.write with
      | none =>
        rw [hw] at hrows
        cases hrows
      | some w =>
        rw [hw] at hrows
        obtain ⟨hrow, -⟩ := List.cons.inj hrows
        obtain ⟨rfl, rfl, -⟩ := Debounce.Row.mk.inj hrow
        exact .written d w hd.fields.symm
    · rw [if_neg hdue, Outcome.rows, List.map_eq_nil_iff, Option.toList_eq_nil_iff] at hrows
      rw [hrows]
      cases hold : devices.lookup m with
      | none => exact absurd (rowDue_of_latest_eq_none (h.unknown hold)) hdue
      | some old =>
        obtain ⟨-, -, l, hl, hdigest, -⟩ := h.known hold
        have hsame := (not_or.mp ((rowDue_iff_of_latest hl).not.mp hdue)).1
        refine .unwritten m d old.toFields (fieldsOf_eq_some_iff.mpr ⟨old, hold, rfl⟩) ?_
        rw [← hdigest, hd.fields]
        exact not_not.mp hsame

/-- What is known of a device is not forgotten while the program runs. -/
structure Grows (old new : Fields) : Prop where
  ip : new.ip = none → old.ip = none
  hostname : new.hostname = none → old.hostname = none
  vendor : new.vendor = none → old.vendor = none

theorem Grows.refl (f : Fields) : Grows f f := ⟨id, id, id⟩

def AllGrow (devices devices' : DeviceMap) : Prop :=
  ∀ m f, fieldsOf devices m = some f → ∃ f', fieldsOf devices' m = some f' ∧ Grows f f'

theorem allGrow_refl (devices : DeviceMap) : AllGrow devices devices :=
  fun _ f hf => ⟨f, hf, .refl f⟩

theorem allGrow_insert {devices : DeviceMap} {m : Str} {d : Device}
    (h : ∀ old, devices.lookup m = some old → Grows old.toFields d.toFields) :
    AllGrow devices (devices.insert m d) := by
  intro m' f hf
  rw [fieldsOf_insert]
  by_cases hm : m' = m
  · obtain ⟨old, hold, rfl⟩ := fieldsOf_eq_some_iff.mp hf
    rw [hm] at hold
    rw [if_pos hm]
    exact ⟨_, rfl, h old hold⟩
  · rw [if_neg hm]
    exact ⟨f, hf, .refl f⟩

theorem allGrow_exec (store : DeviceStore) (c : Call) (now : ℕ) (s : Inner) :
    AllGrow s.byMac (c.exec store now s).1.byMac := by
  cases c with
  | observe ip mac =>
    rw [Call.exec, DeviceStore.observe]
    cases Oui.normalize mac with
    | none => exact allGrow_refl s.byMac
    | some m =>
      refine allGrow_insert ?_
      intro old hold
      rw [(takeWriteSlot_keeps store.fingerprint now _).2, hold, Option.getD_some]
      -- the address is set, and a name or a vendor that is known stays
      refine ⟨?_, ?_, ?_⟩
      · intro hip
        cases hip
      · exact fun hname => (Option.or_eq_none_iff.mp hname).2
      · exact fun hvendor => (Option.or_eq_none_iff.mp hvendor).1
  | observeNamed mac hostname =>
    rw [Call.exec, DeviceStore.observeNamed]
    cases Oui.normalize mac with
    | none => exact allGrow_refl s.byMac
    | some m =>
      cases sanitizeHostname hostname with
      | none => exact allGrow_refl s.byMac
      | some name =>
        refine allGrow_insert ?_
        intro old hold
        rw [(takeWriteSlot_keeps store.fingerprint now _).2, hold, Option.getD_some]
        -- the name is set
        refine ⟨id, ?_, ?_⟩
        · intro hname
          cases hname
        · exact fun hvendor => (Option.or_eq_none_iff.mp hvendor).1
  | observeNameForIp ip hostname =>
    rw [Call.exec, DeviceStore.observeNameForIp]
    cases sanitizeHostname hostname with
    | none => exact allGrow_refl s.byMac
    | some name =>
      cases s.ipToMac.lookup ip with
      | none => exact allGrow_refl s.byMac
      | some m =>
        refine allGrow_insert ?_
        intro old hold
        rw [(takeWriteSlot_keeps store.fingerprint now _).2, hold, Option.getD_some]
        -- a name is set only where there is none
        exact ⟨id, fun hname => (Option.or_eq_none_iff.mp hname).1, id⟩
  | touchIp ip =>
    rw [Call.exec]
    obtain hidle | ⟨v4, m, d, -, hd, hbeat⟩ := touchIp_idle_or_beat ip now s
    · rw [hidle]
      exact allGrow_refl s.byMac
    · rw [hbeat]
      refine allGrow_insert ?_
      intro old hold
      -- nothing but the time of the write has changed
      obtain rfl := Option.some.inj (hd.symm.trans hold)
      exact .refl d.toFields

/-! ### The row of a device -/

/-- The row has what the registry has, or no address any more. -/
structure Describes (r : Db.DeviceRecord) (f : Fields) : Prop where
  hostname : r.hostname = f.hostname
  vendor : r.vendor = f.vendor
  randomized : r.randomized = f.randomized
  ip : r.ip = f.ip.map Ipv4Addr.toText ∨ r.ip = none

theorem describes_newRow (d : Device) (ts : ℤ) :
    Describes (Db.Tables.newRow (persist d ts)) d.toFields := ⟨rfl, rfl, rfl, .inl rfl⟩

/-- `COALESCE` takes nothing over from the old row that the device does not have. -/
theorem Describes.coalesce {r : Db.DeviceRecord} {f : Fields} (h : Describes r f) {d : Device}
    (hgrows : Grows f d.toFields) (ts : ℤ) :
    Describes (Db.Tables.coalesce (persist d ts) r) d.toFields := by
  refine ⟨?_, ?_, rfl, .inl ?_⟩
  · show d.hostname.or r.hostname = d.hostname
    cases hname : d.hostname with
    | some name => rfl
    | none => rw [Option.none_or, h.hostname, hgrows.hostname hname]
  · show d.vendor.or r.vendor = d.vendor
    cases hvendor : d.vendor with
    | some vendor => rfl
    | none => rw [Option.none_or, h.vendor, hgrows.vendor hvendor]
  · show (d.ip.map Ipv4Addr.toText).or r.ip = d.ip.map Ipv4Addr.toText
    cases hip : d.ip with
    | some ip => rfl
    | none =>
      obtain hsame | hlost := h.ip
      · rw [hsame, hgrows.ip hip]
        rfl
      · exact hlost

theorem Describes.release {r : Db.DeviceRecord} {f : Fields} (h : Describes r f)
    (d : Db.DeviceOp) : Describes (Db.Tables.release d r) f := by
  rw [Db.Tables.release]
  split
  · exact ⟨h.hostname, h.vendor, h.randomized, .inr rfl⟩
  · exact h

namespace Site

/-- What the registry knows has a row, and the other way round. -/
structure Recorded (store : DeviceStore) (st : Site) : Prop where
  keyed : Keyed st.inner
  closed : Closed st.inner
  registered : Registered st.tables
  tracked : ∃ rows, Tracks store.fingerprint st.inner.byMac rows
  known : ∀ m, m ∈ st.inner.byMac ↔ (st.tables.devices.get m).isSome = true

def Mirrored (st : Site) : Prop :=
  ∀ m f, fieldsOf st.inner.byMac m = some f →
    ∃ r, st.tables.devices.get m = some r ∧ Describes r f

end Site

/-! ### Hydration -/

/-- The fields a row is hydrated with. -/
def hydratedFields (row : Db.KnownDevice) : Fields where
  ip := hydratedIp row
  hostname := row.hostname
  vendor := row.vendor
  randomized := row.randomized

/-- From rows of different canonical MACs, every device comes from the one row it has. -/
theorem fieldsOf_hydrate (store : DeviceStore) (now : ℕ) {rows : List Db.KnownDevice}
    (hcanonical : ∀ row ∈ rows, Oui.normalize row.mac = some row.mac)
    (hnodup : (rows.map Db.KnownDevice.mac).Nodup) (m : Str) (f : Fields) :
    fieldsOf (store.hydrate rows now .empty).2.byMac m = some f ↔
      ∃ row ∈ rows, row.mac = m ∧ hydratedFields row = f := by
  refine hydrate_induction store now
    (P := fun rows s => (∀ row ∈ rows, Oui.normalize row.mac = some row.mac) →
      (rows.map Db.KnownDevice.mac).Nodup →
        (fieldsOf s.byMac m = some f ↔ ∃ row ∈ rows, row.mac = m ∧ hydratedFields row = f))
    ?_ ?_ rows hcanonical hnodup
  · intro _ _
    constructor
    · intro hf
      cases hf
    · rintro ⟨row, hrow, -⟩
      exact absurd hrow List.not_mem_nil
  · intro rows row s ih hcanonical hnodup
    rw [List.map_append, List.nodup_append] at hnodup
    have hlast := hcanonical row (List.mem_append_right _ (List.mem_singleton_self row))
    -- a row sets its own device and no other
    have hload : fieldsOf ((store.hydrateRow now row s).getD s).byMac m =
        if m = row.mac then some (hydratedFields row) else fieldsOf s.byMac m := by
      rw [DeviceStore.hydrateRow, hlast]
      exact fieldsOf_insert s.byMac row.mac m _
    rw [hload]
    by_cases hm : m = row.mac
    · subst hm
      rw [if_pos rfl, Option.some.injEq]
      constructor
      · intro hf
        exact ⟨row, List.mem_append_right _ (List.mem_singleton_self row), rfl, hf⟩
      · rintro ⟨row', hrow', hmac, hf⟩
        -- no row before the last one has its MAC
        obtain hold | hnew := List.mem_append.mp hrow'
        · exact absurd hmac (hnodup.2.2 _ (List.mem_map_of_mem hold) _ (by simp))
        · rw [List.mem_singleton.mp hnew] at hf
          exact hf
    · rw [if_neg hm, ih (fun row' hrow' => hcanonical row' (List.mem_append_left _ hrow'))
        hnodup.1]
      constructor
      · rintro ⟨row', hrow', hrest⟩
        exact ⟨row', List.mem_append_left _ hrow', hrest⟩
      · rintro ⟨row', hrow', hmac, hf⟩
        obtain hold | hnew := List.mem_append.mp hrow'
        · exact ⟨row', hold, hmac, hf⟩
        · rw [List.mem_singleton.mp hnew] at hmac
          exact absurd hmac.symm hm

def rowOf (r : Db.DeviceRecord) : Db.KnownDevice where
  mac := r.mac
  ip := r.ip
  hostname := r.hostname
  vendor := r.vendor
  randomized := r.randomized

/-- An address that was written as text is read back. -/
theorem map_toText_hydratedIp {r : Db.DeviceRecord}
    (htext : ∀ ip, r.ip = some ip → ∃ x : Ipv4Addr, ip = x.toText) :
    (hydratedIp (rowOf r)).map Ipv4Addr.toText = r.ip := by
  show (r.ip.bind IpAddr.parseIpv4).map Ipv4Addr.toText = r.ip
  cases hip : r.ip with
  | none => rfl
  | some ip =>
    obtain ⟨x, rfl⟩ := htext ip hip
    rw [Option.bind_some, Ipv4Addr.parseIpv4_toText, Option.map_some]

theorem describes_hydratedFields {r : Db.DeviceRecord}
    (htext : ∀ ip, r.ip = some ip → ∃ x : Ipv4Addr, ip = x.toText) :
    Describes r (hydratedFields (rowOf r)) :=
  ⟨rfl, rfl, rfl, .inl (map_toText_hydratedIp htext).symm⟩

namespace Site

/-- A registry made of the table has the fields of the rows. -/
theorem fieldsOf_boot (store : DeviceStore) {t : Db.Tables} (h : Registered t) (now : ℕ) (m : Str) :
    fieldsOf (boot store t now).inner.byMac m =
      (t.devices.get m).map fun r => hydratedFields (rowOf r) := by
  have hrows : ((Db.knownDevices t).map Db.KnownDevice.mac).Nodup := by
    rw [Db.knownDevices, List.map_map]
    exact t.devices.nodup
  apply Option.ext
  intro f
  rw [boot, fieldsOf_hydrate store now (fun row hrow => (mem_knownDevices h hrow).1) hrows,
    Option.map_eq_some_iff]
  constructor
  · rintro ⟨row, hrow, rfl, hf⟩
    obtain ⟨r, hr, rfl⟩ := List.mem_map.mp hrow
    exact ⟨r, Sql.Table.mem_iff_get.mp hr, hf⟩
  · rintro ⟨r, hget, hf⟩
    obtain ⟨hr, hmac⟩ := Sql.Table.get_eq_some_iff.mp hget
    exact ⟨rowOf r, List.mem_map_of_mem hr, hmac, hf⟩

theorem text_of_get {t : Db.Tables} (h : Registered t) {m : Str} {r : Db.DeviceRecord}
    (hr : t.devices.get m = some r) (ip : Str) (hip : r.ip = some ip) :
    ∃ x : Ipv4Addr, ip = x.toText := by
  refine h.text m ip ?_
  rw [Db.Tables.ipOf, hr]
  exact hip

theorem mem_boot_iff (store : DeviceStore) {t : Db.Tables} (h : Registered t) (now : ℕ) (m : Str) :
    m ∈ (boot store t now).inner.byMac ↔ (t.devices.get m).isSome = true := by
  rw [mem_iff_fieldsOf, fieldsOf_boot store h, ← Option.isSome_iff_exists, Option.isSome_map]

theorem recorded_boot (store : DeviceStore) {t : Db.Tables} (h : Registered t) (now : ℕ) :
    Recorded store (boot store t now) where
  keyed := (consistent_boot store h now).keyed
  closed := (known_hydrate store (Db.knownDevices t) now).2
  registered := h
  tracked := ⟨_, (loaded_hydrate (Db.knownDevices t) now).tracks⟩
  known := mem_boot_iff store h now

theorem mirrored_boot (store : DeviceStore) {t : Db.Tables} (h : Registered t) (now : ℕ) :
    Mirrored (boot store t now) := by
  intro m f hf
  rw [fieldsOf_boot store h, Option.map_eq_some_iff] at hf
  obtain ⟨r, hr, rfl⟩ := hf
  exact ⟨r, hr, describes_hydratedFields (text_of_get h hr)⟩

/-! ### Runs -/

section Steps

variable {store : DeviceStore} {st : Site}

theorem Recorded.update (h : Recorded store st) (c : Call) (now : ℕ) :
    Update store.fingerprint st.inner.byMac (c.exec store now st.inner).1.byMac
      (c.exec store now st.inner).2.write := by
  obtain ⟨rows, htracks⟩ := h.tracked
  exact update_of_effect htracks (exec_effect htracks c now)

/-- A device that is not known yet has its row as soon as it is reported. -/
theorem known_update {devices devices' : DeviceMap} {write : Option Device} {t : Db.Tables}
    {fingerprint : Fields → UInt64} (h : ∀ m, m ∈ devices ↔ (t.devices.get m).isSome = true)
    (hu : Update fingerprint devices devices' write) (ts : ℤ) (m : Str) :
    m ∈ devices' ↔ ((applied write ts t).devices.get m).isSome = true := by
  cases hu with
  | idle => exact h m
  | unwritten m' d f hold hsame =>
    have hmem : m' ∈ devices := mem_iff_fieldsOf.mpr ⟨f, hold⟩
    show m ∈ devices.insert m' d ↔ (t.devices.get m).isSome = true
    rw [AList.mem_insert, ← h m]
    constructor
    · rintro (rfl | hm)
      · exact hmem
      · exact hm
    · exact .inr
  | written d w hw =>
    rw [applied_some, Db.Tables.get_execute_device, AList.mem_insert]
    show m = w.mac ∨ m ∈ devices ↔ _
    by_cases hm : m = w.mac
    · simp [persist, hm]
    · simp [persist, hm, h m]

theorem recorded_call (h : Recorded store st) (c : Call) (now : ℕ) (ts : ℤ) :
    Recorded store (step store (.call c now ts) st) := by
  refine ⟨keyed_exec h.keyed store c now, closed_exec store h.closed c now, ?_, ?_, ?_⟩
  · exact registered_applied h.registered (fun w hw => canonical_write h.keyed hw) ts
  · obtain ⟨rows, htracks⟩ := h.tracked
    exact ⟨_, (exec_effect htracks c now).tracks htracks⟩
  · exact known_update h.known (h.update c now) ts

theorem describes_update {devices devices' : DeviceMap} {write : Option Device} {t : Db.Tables}
    {fingerprint : Fields → UInt64} (hknown : ∀ m, m ∈ devices ↔ (t.devices.get m).isSome = true)
    (h : ∀ m f, fieldsOf devices m = some f → ∃ r, t.devices.get m = some r ∧ Describes r f)
    (hu : Update fingerprint devices devices' write) (hgrow : AllGrow devices devices')
    (hclash : ∀ m f f', fieldsOf devices m = some f → fieldsOf devices' m = some f' →
      fingerprint f = fingerprint f' → f = f') (ts : ℤ) (m : Str) (f : Fields)
    (hf : fieldsOf devices' m = some f) :
    ∃ r, (applied write ts t).devices.get m = some r ∧ Describes r f := by
  cases hu with
  | idle => exact h m f hf
  | unwritten m' d old hold hsame =>
    -- the fields are the ones the row has
    have heq : old = d.toFields := by
      refine hclash m' old d.toFields hold ?_ hsame
      rw [fieldsOf_insert, if_pos rfl]
    refine h m f ?_
    rw [fieldsOf_insert] at hf
    by_cases hm : m = m'
    · rw [if_pos hm, ← heq] at hf
      rw [hm, hold]
      exact hf
    · rwa [if_neg hm] at hf
  | written d w hw =>
    have hgrown : ∀ f₀, fieldsOf devices m = some f₀ → Grows f₀ f := by
      intro f₀ hf₀
      obtain ⟨f', hf', hgrows⟩ := hgrow m f₀ hf₀
      obtain rfl := Option.some.inj (hf.symm.trans hf')
      exact hgrows
    rw [applied_some, Db.Tables.get_execute_device]
    rw [fieldsOf_insert] at hf
    by_cases hm : m = w.mac
    · rw [if_pos hm, ← hw] at hf
      obtain rfl := Option.some.inj hf
      refine ⟨_, if_pos hm, ?_⟩
      cases hold : fieldsOf devices m with
      | none =>
        have hrow : t.devices.get m = none := by
          rw [← Option.not_isSome_iff_eq_none, ← hknown m, mem_iff_fieldsOf, hold]
          exact fun hcon => nomatch hcon
        rw [hrow]
        exact describes_newRow w ts
      | some f₀ =>
        obtain ⟨r, hr, hdescribes⟩ := h m f₀ hold
        rw [hr]
        exact hdescribes.coalesce (hgrown f₀ hold) ts
    · rw [if_neg hm] at hf
      obtain ⟨r, hr, hdescribes⟩ := h m f hf
      exact ⟨_, by rw [if_neg (show ¬ m = (persist w ts).mac from hm), hr]; rfl,
        hdescribes.release _⟩

theorem mirrored_call (h : Recorded store st ∧ Mirrored st) {c : Call} {now : ℕ}
    (hclash : c.Unclashing store now st.inner) (ts : ℤ) :
    Recorded store (step store (.call c now ts) st) ∧
      Mirrored (step store (.call c now ts) st) :=
  ⟨recorded_call h.1 c now ts, describes_update h.1.known h.2 (h.1.update c now)
    (allGrow_exec store c now st.inner) hclash ts⟩

/-- What hydration makes of the table, against the registry that wrote it. -/
theorem survives_boot (hrecorded : Recorded store st) (hmirrored : Mirrored st) (now : ℕ) :
    Survives st.inner (boot store st.tables now).inner := by
  refine ⟨?_, ?_⟩
  · intro m
    rw [mem_boot_iff store hrecorded.registered, hrecorded.known]
  · intro m f hf
    obtain ⟨r, hr, hdescribes⟩ := hmirrored m f hf
    refine ⟨hydratedFields (rowOf r), ?_, hdescribes.hostname, hdescribes.vendor,
      hdescribes.randomized, ?_⟩
    · rw [fieldsOf_boot store hrecorded.registered, hr]
      rfl
    · have hread := map_toText_hydratedIp (text_of_get hrecorded.registered hr)
      obtain hsame | hlost := hdescribes.ip
      · left
        rw [hsame] at hread
        exact Option.map_injective (fun _ _ => Ipv4Addr.toText_inj) hread
      · right
        rw [hlost, Option.map_eq_none_iff] at hread
        exact hread

end Steps

end Site

/-! ### Rows that go through the writer -/

section Runs

variable {ι : Type} {store : DeviceStore}

/-- Once everything is written, the table has what the registry knows. -/
def Process.Kept (store : DeviceStore) (p : Process ι) : Prop :=
  ∃ st, p.Matches st ∧ Site.Recorded store st ∧ Site.Mirrored st

theorem kept_boot (store : DeviceStore) {t : Db.Tables} (ht : Registered t) (now : ℕ) :
    (Process.boot store true t now : Process ι).Kept store :=
  ⟨_, Process.matches_boot store rfl now, Site.recorded_boot store ht now,
    Site.mirrored_boot store ht now⟩

theorem kept_step {m : Move ι} {p : Process ι}
    (hm : m.Saves store p ∧ m.Unclashing store p) (h : p.Kept store) :
    (p.step store m).Kept store := by
  obtain ⟨hsaves, hclash⟩ := hm
  obtain ⟨st, hmatches, hkept⟩ := h
  have hnext := Process.matches_step hmatches m hsaves
  cases m with
  | call c now ts =>
    rw [Move.Unclashing, ← hmatches.inner] at hclash
    exact ⟨_, hnext, Site.mirrored_call hkept hclash ts⟩
  | other producer op => exact ⟨st, hnext, hkept⟩
  | thread a => exact ⟨st, hnext, hkept⟩

theorem kept_react {e : Happening ι} {p : Process ι}
    (he : e.Saves store p ∧ e.Unclashing store p) (h : p.Kept store) :
    (p.react store e).Kept store := by
  cases e with
  | move m => exact kept_step he h
  | restart readable now =>
    obtain ⟨⟨rfl, hsettled⟩, -⟩ := he
    obtain ⟨st, hmatches, hrecorded, -⟩ := h
    exact kept_boot store
      (hrecorded.registered.of_devices_eq (hmatches.devices_of_settled hsettled).symm) now

/-- Whatever is reported in however many runs of the program, a restart leaves every device with
its name and its vendor, and with its address unless the row has lost it. -/
theorem survives_restart (store : DeviceStore) {t : Db.Tables} (ht : Registered t) (now : ℕ)
    (events : List (Happening ι)) (now' : ℕ)
    (hrun : Along (Process.react store) (fun e p => e.Saves store p ∧ e.Unclashing store p)
      (events ++ [.restart true now']) (Process.boot store true t now)) :
    Survives (run (Process.react store) events (Process.boot store true t now)).inner
      (run (Process.react store) (events ++ [.restart true now'])
        (Process.boot store true t now)).inner := by
  obtain ⟨hevents, ⟨⟨-, hsettled⟩, -⟩, -⟩ := along_append.mp hrun
  obtain ⟨st, hmatches, hrecorded, hmirrored⟩ :=
    hevents.invariant (fun _ _ => kept_react) (kept_boot store ht now)
  have hboot : (Process.boot store true _ now' : Process ι).Matches
      (Site.boot store st.tables now') :=
    Process.matches_boot store (hmatches.devices_of_settled hsettled) now'
  rw [run_append, run_cons, run_nil, ← hmatches.inner]
  exact hboot.inner ▸ Site.survives_boot hrecorded hmirrored now'

/-- The tablet takes the address of the kitchen device over, which keeps nothing but its MAC. -/
def takenOver : List (Happening Unit) :=
  [.move (.call (.observe Site.sharedIp kitchenMac) 0 0),
    .move (.call (.observe Site.sharedIp Site.tabletMac) 0 0), .move (.thread ⟨.receive, trivial⟩),
    .move (.thread ⟨.receive, trivial⟩), .move (.thread ⟨.deadline, trivial⟩),
    .move (.thread ⟨.flush fun _ => false, trivial⟩)]

theorem survives_restart_takenOver :
    Survives
      (run (Process.react plainStore) takenOver (Process.boot plainStore true .fresh 0)).inner
      (run (Process.react plainStore) (takenOver ++ [.restart true 1])
        (Process.boot plainStore true .fresh 0)).inner := by
  refine survives_restart plainStore registered_fresh 0 takenOver 1
    ⟨⟨fun _ => by decide, ?_⟩, ⟨fun _ => by decide, ?_⟩, ⟨rfl, trivial⟩, ⟨rfl, trivial⟩,
      ⟨rfl, trivial⟩, ⟨rfl, trivial⟩, ⟨⟨rfl, rfl⟩, trivial⟩, trivial⟩
  · intro m f f' hf
    cases hf
  · -- only the kitchen device was there before, and it is left alone
    let kitchen : Device := ⟨{ ip := some Site.sharedIp }, kitchenMac,
      some (plainStore.fingerprint { ip := some Site.sharedIp }), some 0⟩
    intro m f f' hf hf' _
    have hbefore : fieldsOf ((∅ : DeviceMap).insert kitchenMac kitchen) m = some f := hf
    have hafter : fieldsOf (((∅ : DeviceMap).insert kitchenMac kitchen).insert Site.tabletMac
        { kitchen with mac := Site.tabletMac }) m = some f' := hf'
    rw [fieldsOf_insert] at hbefore hafter
    split at hbefore
    · next hm =>
      have hne : ¬ m = Site.tabletMac := by rw [hm]; decide
      rw [if_neg hne, fieldsOf_insert, if_pos hm] at hafter
      exact Option.some.inj (hbefore.symm.trans hafter)
    · cases hbefore

end Runs

/-! ### First sightings -/

theorem firstReport_cons (m : Str) (c : Call) (calls : List Call) :
    firstReport m (c :: calls) = if c.reports = some m then some c else firstReport m calls := by
  rw [firstReport, List.find?_cons]
  by_cases h : c.reports = some m
  · simp [h]
  · simp [h, firstReport]

/-- What a call reports of a device is decided by whether the registry knows it. -/
theorem newcomer_call (store : DeviceStore) {s : Inner} (h : Closed s) (c : Call) (now : ℕ)
    (m : Str) : (c.exec store now s).2.firstSighting.map Device.mac = some m ↔
      c.announces = some m ∧ m ∉ s.byMac := by
  rw [firstSighting_exec store h, Option.filter_eq_some_iff]
  simp only [decide_eq_true_eq]

theorem count_toList (o : Option Str) (m : Str) :
    o.toList.count m = if o = some m then 1 else 0 := by
  cases o with
  | none => rfl
  | some m' =>
    rw [Option.toList_some, List.count_singleton]
    simp only [beq_iff_eq, Option.some.injEq]

/-- Whether the first report of a device is a sighting is settled by the call that reports it. -/
theorem first_of_call (c : Call) (calls : List Call) (m : Str) (known : Prop) [Decidable known] :
    ((if c.announces = some m ∧ ¬ known then 1 else 0) +
      if ¬ (known ∨ c.reports = some m) ∧
        (firstReport m calls).any (fun c => c.announces.isSome) = true then 1 else 0) =
      if ¬ known ∧ (firstReport m (c :: calls)).any (fun c => c.announces.isSome) = true
      then 1 else 0 := by
  rw [firstReport_cons]
  by_cases hm : known
  · simp [hm]
  by_cases hreports : c.reports = some m
  · have hann : c.announces = some m ↔ c.announces.isSome = true := by
      rw [Option.isSome_iff_exists]
      constructor
      · exact fun hann => ⟨m, hann⟩
      · rintro ⟨m', hann⟩
        rw [hann, ← reports_of_announces hann, hreports]
    simp [hm, hreports, hann]
  · have hann : c.announces ≠ some m := fun hann => hreports (reports_of_announces hann)
    simp [hm, hreports, hann]

section Runs

variable {ι : Type} {store : DeviceStore}

theorem count_newcomers_cons (e : Happening ι) (events : List (Happening ι)) (p : Process ι)
    (m : Str) : (newcomers store (e :: events) p).count m =
      (if e.newcomer store p = some m then 1 else 0) +
        (newcomers store events (p.react store e)).count m := by
  rw [newcomers, order, List.count_append, count_toList]
  rfl

/-- Hydration finds the rows of exactly the devices that were known. -/
theorem mem_byMac_restart {p : Process ι} {st : Site} (hmatches : p.Matches st)
    (h : Site.Recorded store st) {readable : Bool} {now : ℕ}
    (hsaves : (Happening.restart readable now).Saves store p) (m : Str) :
    m ∈ (p.react store (.restart readable now)).inner.byMac ↔ m ∈ p.inner.byMac := by
  have hboot : (Site.boot store st.tables now).inner =
      (p.react store (.restart readable now)).inner :=
    (Process.matches_react _ p st hsaves hmatches).inner
  rw [← hmatches.inner, ← hboot, Site.mem_boot_iff store h.registered, h.known]

theorem count_newcomers_of_recorded (events : List (Happening ι)) {p : Process ι} {st : Site}
    (hmatches : p.Matches st) (h : Site.Recorded store st)
    (hsaves : Along (Process.react store) (Happening.Saves store) events p) (m : Str) :
    (newcomers store events p).count m =
      if m ∉ p.inner.byMac ∧
          (firstReport m (events.filterMap Happening.call?)).any
            (fun c => c.announces.isSome) = true
      then 1 else 0 := by
  induction events generalizing p st with
  | nil => simp [newcomers, order, firstReport]
  | cons e events ih =>
    obtain ⟨he, hevents⟩ := hsaves
    have hnext := Process.matches_react e p st he hmatches
    rw [count_newcomers_cons]
    cases e with
    | restart readable now =>
      rw [ih hnext (Site.recorded_boot store h.registered now) hevents]
      simp only [mem_byMac_restart hmatches h he, Happening.newcomer, reduceCtorEq, if_false,
        Nat.zero_add]
      rfl
    | move move =>
      cases move with
      | other producer op =>
        rw [ih hnext h hevents]
        exact Nat.zero_add _
      | thread a =>
        rw [ih hnext h hevents]
        exact Nat.zero_add _
      | call c now ts =>
        have hclosed : Closed p.inner := hmatches.inner ▸ h.closed
        have hknown : m ∈ (p.react store (.move (.call c now ts))).inner.byMac ↔
            m ∈ p.inner.byMac ∨ c.reports = some m := mem_byMac_exec store hclosed c now m
        rw [ih hnext (Site.recorded_call h c now ts) hevents]
        simp only [hknown, Happening.newcomer, newcomer_call store hclosed]
        exact first_of_call c _ m _

/-- Over any number of restarts, a device is reported as new once if it had no row at first and
the first call that reports it is a sighting with an address, and never otherwise. -/
theorem count_newcomers (store : DeviceStore) {t : Db.Tables} (ht : Registered t) (now : ℕ)
    (events : List (Happening ι))
    (hsaves : Along (Process.react store) (Happening.Saves store) events
      (Process.boot store true t now)) (m : Str) :
    (newcomers store events (Process.boot store true t now)).count m =
      if t.devices.get m = none ∧
          (firstReport m (events.filterMap Happening.call?)).any
            (fun c => c.announces.isSome) = true
      then 1 else 0 := by
  have hboot : (Process.boot store true t now : Process ι).Matches (Site.boot store t now) :=
    Process.matches_boot store rfl now
  have hcount := count_newcomers_of_recorded events hboot (Site.recorded_boot store ht now)
    hsaves m
  simpa only [← hboot.inner, Site.mem_boot_iff store ht, Option.not_isSome_iff_eq_none] using hcount

/-- The kitchen device is seen and its row written. -/
def sighted : List (Happening Unit) :=
  [.move (.call (.observe Site.sharedIp kitchenMac) 0 0), .move (.thread ⟨.receive, trivial⟩),
    .move (.thread ⟨.deadline, trivial⟩), .move (.thread ⟨.flush fun _ => false, trivial⟩)]

theorem count_newcomers_sighted :
    (newcomers plainStore (sighted ++ .restart true 1 :: sighted)
      (Process.boot plainStore true .fresh 0)).count kitchenMac = 1 := by
  refine (count_newcomers plainStore registered_fresh 0 _ ?_ kitchenMac).trans (by decide)
  exact ⟨fun _ => by decide, rfl, rfl, rfl, ⟨rfl, rfl⟩, fun hdue => absurd hdue (by decide), rfl,
    rfl, rfl, trivial⟩

-- a row that is still in the batch when the program stops is lost, and the device is new again
example : (newcomers plainStore (sighted.take 3 ++ .restart true 1 :: sighted)
    (Process.boot plainStore true .fresh 0)).count kitchenMac = 2 := by
  decide

end Runs

end Netwatch.Devices
