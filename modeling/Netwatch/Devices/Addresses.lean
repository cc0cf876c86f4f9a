import Netwatch.Devices.Persisted
import Netwatch.RustStd.Ipv4Text

/-!
# The addresses in the registry

The registry has an address in two places: with the device that was last seen there, and in the
reverse index. A sighting sets both for its own device and leaves the address with the devices
that had it before.

## Main definitions

- `Call.sighted` — the address and the MAC that a call observes
- `Call.due` — the entry that a call persists

## Main results

- `write_exec` — a call persists the entry that is due
- `exec_of_sighted`, `exec_of_not_sighted` — what the calls do to addresses
- `addressed_hydrate` — the addresses after hydration
-/

namespace Netwatch.Devices

open RustStd

/-- The address and the MAC that a call observes. -/
def Call.sighted : Call → Option (Ipv4Addr × Str)
  | .observe ip mac => (Oui.normalize mac).map fun m => (ip, m)
  | _ => none

/-- The entry that a call brings up to date. -/
def Call.entry (store : DeviceStore) (s : Inner) : Call → Option Device
  | .observe ip mac => do
    let m ← Oui.normalize mac
    let entry := (s.byMac.lookup m).getD { mac := m }
    some { entry with
      ip := some ip
      randomized := Oui.isRandomized m
      vendor := entry.vendor.or (store.vendor m)
      hostname := (s.pendingNames.lookup ip).or entry.hostname }
  | .observeNamed mac hostname => do
    let m ← Oui.normalize mac
    let name ← sanitizeHostname hostname
    let entry := (s.byMac.lookup m).getD { mac := m }
    some { entry with
      hostname := some name
      randomized := Oui.isRandomized m
      vendor := entry.vendor.or (store.vendor m) }
  | .observeNameForIp ip hostname => do
    let name ← sanitizeHostname hostname
    let m ← s.ipToMac.lookup ip
    let entry := (s.byMac.lookup m).getD { mac := m, ip := some ip }
    some { entry with hostname := entry.hostname.or (some name) }
  | .touchIp (.v4 ip) => (s.ipToMac.lookup ip).bind s.byMac.lookup
  | .touchIp (.v6 _) => none

/-- That entry, if it is changed or its last row is old. -/
def Call.due (store : DeviceStore) (now : ℕ) (s : Inner) (c : Call) : Option Device :=
  (c.entry store s).filter fun e =>
    match c with
    | .touchIp _ => e.stale now
    | _ => (e.takeWriteSlot store.fingerprint now).1

/-- What a row says of a device. -/
abbrev Device.content (d : Device) : Str × Fields := (d.mac, d.toFields)

theorem content_slot {fingerprint : Fields → UInt64} {now : ℕ} {e w : Device}
    (hw : w.content = e.content) :
    (if (e.takeWriteSlot fingerprint now).1 then some w else none).map Device.content =
      ((some e).filter fun e => (e.takeWriteSlot fingerprint now).1).map Device.content := by
  rw [Option.filter_some]
  split
  · rw [Option.map_some, Option.map_some, hw]
  · rfl

theorem write_touchLocked (ip : Ipv4Addr) (now : ℕ) (s : Inner) :
    (touchLocked ip now s).2.write.map Device.content =
      (((s.ipToMac.lookup ip).bind s.byMac.lookup).filter (Device.stale now)).map
        Device.content := by
  rw [touchLocked]
  cases s.ipToMac.lookup ip with
  | none => rfl
  | some m =>
    dsimp only [Option.bind_some]
    cases (s.byMac.lookup m).filter (Device.stale now) <;> rfl

/-- A call persists the entry that is due. -/
theorem write_exec (store : DeviceStore) (c : Call) (now : ℕ) (s : Inner) :
    (c.exec store now s).2.write.map Device.content = (c.due store now s).map Device.content := by
  cases c with
  | observe ip mac =>
    rw [Call.exec, DeviceStore.observe, Call.due, Call.entry]
    cases Oui.normalize mac with
    | none => rfl
    | some m => exact content_slot rfl
  | observeNamed mac hostname =>
    rw [Call.exec, DeviceStore.observeNamed, Call.due, Call.entry]
    cases Oui.normalize mac with
    | none => rfl
    | some m =>
      cases sanitizeHostname hostname with
      | none => rfl
      | some name =>
        -- the decision to write changes nothing that is written
        apply content_slot
        obtain ⟨hmac, hfields⟩ := takeWriteSlot_keeps store.fingerprint now _
        exact Prod.ext hmac hfields
  | observeNameForIp ip hostname =>
    rw [Call.exec, DeviceStore.observeNameForIp, Call.due, Call.entry]
    cases sanitizeHostname hostname with
    | none => rfl
    | some name =>
      cases s.ipToMac.lookup ip with
      | none => rfl
      | some m =>
        apply content_slot
        obtain ⟨hmac, hfields⟩ := takeWriteSlot_keeps store.fingerprint now _
        exact Prod.ext hmac hfields
  | touchIp ip =>
    rw [Call.exec, Call.due]
    cases ip with
    | v6 _ => rfl
    | v4 ip =>
      rw [Call.entry, touchIp]
      by_cases hdue : touchDue ip now s = true
      · rw [if_pos hdue, write_touchLocked]
      · rw [if_neg hdue]
        -- a device that is not stale is not due
        have hnone :
            ((s.ipToMac.lookup ip).bind s.byMac.lookup).filter (Device.stale now) = none := by
          rw [Option.filter_eq_none_iff]
          intro d hd hstale
          exact hdue (by rw [touchDue, hd, Option.any_some, hstale])
        exact (congrArg (Option.map Device.content) hnone).symm

/-- The keys of the registry are canonical. -/
structure Keyed (s : Inner) : Prop where
  byMac : ∀ m d, s.byMac.lookup m = some d → d.mac = m ∧ Oui.normalize m = some m
  ipToMac : ∀ x m, s.ipToMac.lookup x = some m → Oui.normalize m = some m

theorem Keyed.mac_getD {s : Inner} (h : Keyed s) {m : Str} {init : Device} (hinit : init.mac = m) :
    ((s.byMac.lookup m).getD init).mac = m :=
  Devices.mac_getD hinit fun old hold => (h.byMac m old hold).1

/-- A sighting moves the device and its reverse index to the address, and so does its row. -/
theorem exec_of_sighted {s : Inner} (h : Keyed s) (store : DeviceStore) {c : Call} {ip : Ipv4Addr}
    {m : Str} (hc : c.sighted = some (ip, m)) (now : ℕ) :
    Oui.normalize m = some m ∧ (c.exec store now s).1.ipToMac = s.ipToMac.insert ip m ∧
      (∃ d, (c.exec store now s).1.byMac = s.byMac.insert m d ∧ d.mac = m ∧ d.ip = some ip) ∧
      ∀ w, (c.exec store now s).2.write = some w → w.mac = m ∧ w.ip = some ip := by
  cases c with
  | observe ip' mac =>
    obtain ⟨m', hmac, heq⟩ := Option.map_eq_some_iff.mp hc
    cases heq
    have hkey : ((s.byMac.lookup m).getD { mac := m }).mac = m := h.mac_getD rfl
    rw [Call.exec, DeviceStore.observe, hmac]
    refine ⟨Oui.normalize_idem hmac, rfl, ⟨_, rfl, ?_, ?_⟩, ?_⟩
    · rw [(takeWriteSlot_keeps store.fingerprint now _).1]
      exact hkey
    · rw [(takeWriteSlot_keeps store.fingerprint now _).2]
    · intro w hw
      obtain ⟨-, hw⟩ := Option.ite_none_right_eq_some.mp hw
      cases hw
      exact ⟨hkey, rfl⟩
  | observeNamed mac hostname => cases hc
  | observeNameForIp ip' hostname => cases hc
  | touchIp ip' => cases hc

theorem lookup_of_sighted {s : Inner} (h : Keyed s) (store : DeviceStore) {c : Call}
    {ip : Ipv4Addr} {m : Str} (hc : c.sighted = some (ip, m)) (now : ℕ) (x : Ipv4Addr) :
    (c.exec store now s).1.ipToMac.lookup x = if x = ip then some m else s.ipToMac.lookup x := by
  rw [(exec_of_sighted h store hc now).2.1, HashMap.lookup_insert]

/-- Any other call leaves the reverse index alone. It updates at most one device, which keeps its
address, and its row carries that address. -/
structure Stays (s s' : Inner) (write : Option Device) : Prop where
  ipToMac : s'.ipToMac = s.ipToMac
  byMac : (s'.byMac = s.byMac ∧ write = none) ∨
    ∃ m d, s'.byMac = s.byMac.insert m d ∧ Oui.normalize m = some m ∧ d.mac = m ∧
      (∀ x, d.ip = some x →
        (∃ old, s.byMac.lookup m = some old ∧ old.ip = some x) ∨ s.ipToMac.lookup x = some m) ∧
      ∀ w, write = some w → w.mac = m ∧ w.ip = d.ip

theorem stays_refl (s : Inner) : Stays s s none := ⟨rfl, .inl ⟨rfl, rfl⟩⟩

/-- The address of an entry that was there before. -/
theorem ip_getD {s : Inner} {m : Str} {init : Device} {x : Ipv4Addr}
    (h : ((s.byMac.lookup m).getD init).ip = some x) :
    (∃ old, s.byMac.lookup m = some old ∧ old.ip = some x) ∨ init.ip = some x := by
  cases hold : s.byMac.lookup m with
  | none =>
    rw [hold] at h
    exact .inr h
  | some old =>
    rw [hold] at h
    exact .inl ⟨old, rfl, h⟩

/-- An update by `take_write_slot` that leaves the address alone. -/
theorem stays_of_slot {s : Inner} (fingerprint : Fields → UInt64) {m : Str} {d : Device}
    (hcanonical : Oui.normalize m = some m) (hmac : d.mac = m)
    (hip : ∀ x, d.ip = some x →
      (∃ old, s.byMac.lookup m = some old ∧ old.ip = some x) ∨ s.ipToMac.lookup x = some m)
    (now : ℕ) :
    Stays s { s with byMac := s.byMac.insert m (d.takeWriteSlot fingerprint now).2 }
      (if (d.takeWriteSlot fingerprint now).1 then some (d.takeWriteSlot fingerprint now).2
        else none) := by
  obtain ⟨hkeepsMac, hkeepsFields⟩ := takeWriteSlot_keeps fingerprint now d
  refine ⟨rfl, .inr ⟨m, _, rfl, hcanonical, hkeepsMac.trans hmac, ?_, ?_⟩⟩
  · rw [hkeepsFields]
    exact hip
  · intro w hw
    obtain ⟨-, hw⟩ := Option.ite_none_right_eq_some.mp hw
    cases hw
    exact ⟨hkeepsMac.trans hmac, rfl⟩

theorem touchLocked_stays {s : Inner} (h : Keyed s) (ip : Ipv4Addr) (now : ℕ) :
    Stays s (touchLocked ip now s).1 (touchLocked ip now s).2.write := by
  obtain hidle | ⟨m, d, hip, hd, -, hbeat⟩ := touchLocked_cases ip now s
  · rw [hidle]
    exact stays_refl s
  · obtain ⟨hmac, hcanonical⟩ := h.byMac m d hd
    rw [hbeat]
    refine ⟨rfl, .inr ⟨m, _, rfl, hcanonical, hmac, ?_, ?_⟩⟩
    · exact fun x hx => .inl ⟨d, hd, hx⟩
    · intro w hw
      cases hw
      exact ⟨hmac, rfl⟩

/-- A text that is no MAC is not observed. -/
theorem exec_observe_of_not_sighted {ip : Ipv4Addr} {mac : Str}
    (hc : (Call.observe ip mac).sighted = none) (store : DeviceStore) (now : ℕ) (s : Inner) :
    (Call.observe ip mac).exec store now s = (s, {}) := by
  have hmac : Oui.normalize mac = none := Option.map_eq_none_iff.mp hc
  rw [Call.exec, DeviceStore.observe, hmac]

theorem exec_of_not_sighted {s : Inner} (h : Keyed s) (store : DeviceStore) {c : Call}
    (hc : c.sighted = none) (now : ℕ) :
    Stays s (c.exec store now s).1 (c.exec store now s).2.write := by
  cases c with
  | observe ip mac =>
    rw [exec_observe_of_not_sighted hc]
    exact stays_refl s
  | observeNamed mac hostname =>
    rw [Call.exec, DeviceStore.observeNamed]
    cases hmac : Oui.normalize mac with
    | none => exact stays_refl s
    | some m =>
      cases sanitizeHostname hostname with
      | none => exact stays_refl s
      | some name =>
        have hkey : ((s.byMac.lookup m).getD { mac := m }).mac = m := h.mac_getD rfl
        apply stays_of_slot store.fingerprint (Oui.normalize_idem hmac)
        · exact hkey
        · intro x hx
          obtain hold | hinit := ip_getD hx
          · exact .inl hold
          · cases hinit
  | observeNameForIp ip hostname =>
    rw [Call.exec, DeviceStore.observeNameForIp]
    cases sanitizeHostname hostname with
    | none => exact stays_refl s
    | some name =>
      cases hip : s.ipToMac.lookup ip with
      | none =>
        -- the name waits in `pending_names`
        exact ⟨rfl, .inl ⟨rfl, rfl⟩⟩
      | some m =>
        apply stays_of_slot store.fingerprint (h.ipToMac ip m hip)
        · exact h.mac_getD rfl
        · intro x hx
          obtain hold | hinit := ip_getD hx
          · exact .inl hold
          · -- a new entry starts with the address that led to it
            cases hinit
            exact .inr hip
  | touchIp ip =>
    rw [Call.exec]
    obtain hidle | ⟨v4, hlocked⟩ := touchIp_cases ip now s
    · rw [hidle]
      exact stays_refl s
    · rw [hlocked]
      exact touchLocked_stays h v4 now

theorem Keyed.byMac_insert {s : Inner} (h : Keyed s) {m : Str} {d : Device}
    (hcanonical : Oui.normalize m = some m) (hmac : d.mac = m) (m' : Str) (d' : Device)
    (hd' : (s.byMac.insert m d).lookup m' = some d') :
    d'.mac = m' ∧ Oui.normalize m' = some m' := by
  obtain ⟨rfl, rfl⟩ | ⟨-, hd'⟩ := HashMap.of_lookup_insert hd'
  · exact ⟨hmac, hcanonical⟩
  · exact h.byMac m' d' hd'

theorem keyed_exec {s : Inner} (h : Keyed s) (store : DeviceStore) (c : Call) (now : ℕ) :
    Keyed (c.exec store now s).1 := by
  cases hc : c.sighted with
  | none =>
    obtain ⟨hindex, ⟨hsame, -⟩ | ⟨m, d, hinsert, hcanonical, hmac, -, -⟩⟩ :=
      exec_of_not_sighted h store hc now
    · exact ⟨hsame ▸ h.byMac, hindex ▸ h.ipToMac⟩
    · exact ⟨hinsert ▸ h.byMac_insert hcanonical hmac, hindex ▸ h.ipToMac⟩
  | some sighted =>
    obtain ⟨hcanonical, -, ⟨d, hinsert, hmac, -⟩, -⟩ := exec_of_sighted h store hc now
    refine ⟨hinsert ▸ h.byMac_insert hcanonical hmac, ?_⟩
    intro x m' hx
    rw [lookup_of_sighted h store hc] at hx
    split at hx
    · cases hx
      exact hcanonical
    · exact h.ipToMac x m' hx

theorem canonical_write {s : Inner} (h : Keyed s) {store : DeviceStore} {c : Call} {now : ℕ}
    {w : Device} (hw : (c.exec store now s).2.write = some w) :
    Oui.normalize w.mac = some w.mac := by
  cases hc : c.sighted with
  | none =>
    obtain ⟨-, ⟨-, hnone⟩ | ⟨m, d, -, hcanonical, -, -, hwrite⟩⟩ :=
      exec_of_not_sighted h store hc now
    · rw [hnone] at hw
      cases hw
    · rw [(hwrite w hw).1]
      exact hcanonical
  | some sighted =>
    obtain ⟨hcanonical, -, -, hwrite⟩ := exec_of_sighted h store hc now
    rw [(hwrite w hw).1]
    exact hcanonical

/-! ### Hydration -/

/-- The address a row is hydrated with. -/
def hydratedIp (row : Db.KnownDevice) : Option Ipv4Addr := row.ip.bind IpAddr.parseIpv4

/-- The registry has the addresses of the rows, each from one of them. -/
structure Addressed (rows : List Db.KnownDevice) (s : Inner) : Prop where
  byMac : ∀ m d, s.byMac.lookup m = some d →
    d.mac = m ∧ ∃ row ∈ rows, row.mac = m ∧ d.ip = hydratedIp row
  ipToMac : ∀ x m, s.ipToMac.lookup x = some m →
    ∃ row ∈ rows, row.mac = m ∧ hydratedIp row = some x
  covers : ∀ row ∈ rows, ∀ x, hydratedIp row = some x → ∃ m, s.ipToMac.lookup x = some m

theorem addressed_insert {rows : List Db.KnownDevice} {s s' : Inner} (h : Addressed rows s)
    (row : Db.KnownDevice) {d : Device} (hbyMac : s'.byMac = s.byMac.insert row.mac d)
    (hipToMac : s'.ipToMac = match hydratedIp row with
      | some ip => s.ipToMac.insert ip row.mac
      | none => s.ipToMac)
    (hmac : d.mac = row.mac) (hip : d.ip = hydratedIp row) :
    Addressed (rows ++ [row]) s' := by
  have hlast : row ∈ rows ++ [row] := List.mem_append_right rows (List.mem_singleton_self row)
  refine ⟨?_, ?_, ?_⟩
  · intro m d' hlookup
    rw [hbyMac] at hlookup
    obtain ⟨rfl, rfl⟩ | ⟨-, hlookup⟩ := HashMap.of_lookup_insert hlookup
    · exact ⟨hmac, row, hlast, rfl, hip⟩
    · obtain ⟨hmac', row', hmem, hrow'⟩ := h.byMac m d' hlookup
      exact ⟨hmac', row', List.mem_append_left _ hmem, hrow'⟩
  · intro x m hlookup
    have hold : s.ipToMac.lookup x = some m →
        ∃ row' ∈ rows ++ [row], row'.mac = m ∧ hydratedIp row' = some x := by
      intro hlookup
      obtain ⟨row', hmem, hrow'⟩ := h.ipToMac x m hlookup
      exact ⟨row', List.mem_append_left _ hmem, hrow'⟩
    rw [hipToMac] at hlookup
    cases hrow : hydratedIp row with
    | none =>
      rw [hrow] at hlookup
      exact hold hlookup
    | some ip =>
      rw [hrow] at hlookup
      obtain ⟨rfl, rfl⟩ | ⟨-, hlookup⟩ := HashMap.of_lookup_insert hlookup
      · exact ⟨row, hlast, rfl, hrow⟩
      · exact hold hlookup
  · intro row' hmem x hx
    rw [hipToMac]
    cases hrow : hydratedIp row with
    | none =>
      obtain hmem | hmem := List.mem_append.mp hmem
      · exact h.covers row' hmem x hx
      · rw [List.mem_singleton.mp hmem, hrow] at hx
        cases hx
    | some ip =>
      -- a later row may take the address over, which leaves it in the index
      by_cases heq : x = ip
      · rw [heq]
        exact ⟨row.mac, AList.lookup_insert _⟩
      · have hne : row' ≠ row := by
          rintro rfl
          exact heq (Option.some.inj (hx.symm.trans hrow))
        obtain hmem | hmem := List.mem_append.mp hmem
        · obtain ⟨m, hm⟩ := h.covers row' hmem x hx
          exact ⟨m, (AList.lookup_insert_ne heq).trans hm⟩
        · exact absurd (List.mem_singleton.mp hmem) hne

/-- The addresses after hydration from rows with canonical keys. -/
theorem addressed_hydrate (store : DeviceStore) (now : ℕ) {rows : List Db.KnownDevice}
    (hcanonical : ∀ row ∈ rows, Oui.normalize row.mac = some row.mac) :
    Addressed rows (store.hydrate rows now .empty).2 := by
  refine hydrate_induction store now
    (P := fun rows s => (∀ row ∈ rows, Oui.normalize row.mac = some row.mac) → Addressed rows s)
    ?_ ?_ rows hcanonical
  · intro _
    refine ⟨?_, ?_, ?_⟩
    · intro m d hlookup
      cases hlookup
    · intro x m hlookup
      cases hlookup
    · exact fun row hmem => absurd hmem List.not_mem_nil
  · intro rows row s ih hcanonical
    have hlast := hcanonical row (List.mem_append_right _ (List.mem_singleton_self row))
    rw [DeviceStore.hydrateRow, hlast]
    apply addressed_insert _ row
    · rfl
    · rfl
    · rfl
    · rfl
    · exact ih fun row' hmem => hcanonical row' (List.mem_append_left _ hmem)

end Netwatch.Devices
