import Netwatch.Db.Tables
import Netwatch.Oui

/-!
# The device registry

`DeviceStore` of `devices.rs`: what is known about each MAC address, who was last seen with an
address, and the calls by which discovery reports. A call works under the write lock and
leaves for later what is to be sent once the lock is released. The clock readings and the hash
of the fields are arguments.

## Main definitions

- `Device.takeWriteSlot` — whether a sighting is worth a row
- `DeviceStore.hydrate` — the registry at startup
- `DeviceStore.observe`, `observeNamed`, `observeNameForIp`, `touchIp` — the calls
- `learnedNames` — what `learn_from_dns` reports
- `persist` — the row that is sent

## Main results

- `touchIp_cases`, `touchLocked_cases`, `touchIp_idle_or_beat` — a touch does nothing, or it is a
  heartbeat
- `hydrate_induction` — what every loaded row keeps, hydration keeps
-/

namespace Netwatch

open RustStd Hickory

namespace Db

/-- A row of `known_devices`. -/
structure KnownDevice where
  mac : Str
  ip : Option Str
  hostname : Option Str
  vendor : Option Str
  randomized : Bool
  deriving DecidableEq

def knownDevices (t : Tables) : List KnownDevice :=
  t.devices.rows.map fun r =>
    { mac := r.mac, ip := r.ip, hostname := r.hostname, vendor := r.vendor
      randomized := r.randomized }

end Db

namespace Devices

/-- How often an otherwise unchanged device gets its `last_seen` refreshed, in nanoseconds. -/
def lastSeenHeartbeat : ℕ := 60 * 10 ^ 9

/-- Everything about a device that is worth a write. -/
structure Fields where
  ip : Option Ipv4Addr := none
  hostname : Option Str := none
  vendor : Option Str := none
  randomized : Bool := false
  deriving DecidableEq

structure Device extends Fields where
  mac : Str
  /-- Fingerprint of the fields as last written. -/
  writtenFingerprint : Option UInt64 := none
  /-- When `last_seen` was last pushed to the database. -/
  lastSeenWritten : Option ℕ := none
  deriving DecidableEq

/-- `last_seen_written.is_none_or(|t| now.duration_since(t) >= LAST_SEEN_HEARTBEAT)`; the
difference of two instants saturates at zero. -/
def Device.stale (now : ℕ) (d : Device) : Bool :=
  match d.lastSeenWritten with
  | none => true
  | some t => lastSeenHeartbeat ≤ now - t

/-- Whether this sighting is worth a row, and the device with the decision recorded. -/
def Device.takeWriteSlot (fingerprint : Fields → UInt64) (now : ℕ) (d : Device) :
    Bool × Device :=
  let fp := fingerprint d.toFields
  let changed := d.writtenFingerprint ≠ some fp
  if changed ∨ d.stale now then
    (true, { d with writtenFingerprint := some fp, lastSeenWritten := some now })
  else (false, d)

structure Inner where
  byMac : HashMap Str Device
  /-- Reverse index, so that the address of a client can be resolved to a device. -/
  ipToMac : HashMap Ipv4Addr Str
  /-- Names learned for an address before its MAC is known. -/
  pendingNames : HashMap Ipv4Addr Str

def Inner.empty : Inner := ⟨∅, ∅, ∅⟩

/-- What a call does once it has released the lock. -/
structure Outcome where
  write : Option Device := none
  firstSighting : Option Device := none

/-- What is fixed when the registry is built. -/
structure DeviceStore where
  oui : OuiDb
  /-- `DefaultHasher` over the four fields. -/
  fingerprint : Fields → UInt64

/-- Letters, digits, `-`, `_` and `.`, at most 64 bytes, not an address; in lower case. -/
def sanitizeHostname (raw : Str) : Option Str :=
  let trimmed := Str.trimEndMatches '.' (Str.trim raw)
  if trimmed = [] ∨ Str.len trimmed > 64 then none
  else if !(trimmed.all fun c => c.isAlphanum || c == '-' || c == '_' || c == '.') then none
  else if (IpAddr.parse trimmed).isSome then none
  else some (Str.toAsciiLowercase trimmed)

/-- `42.1.168.192.in-addr.arpa` → `192.168.1.42` -/
def ptrNameToIp (name : Str) : Option Ipv4Addr := do
  let n := Str.toAsciiLowercase (Str.trimEndMatches '.' name)
  let base ← Str.stripSuffix ".in-addr.arpa".toList n
  let octets ← (base.splitOn '.').reverse.mapM Str.parseU8
  match octets with
  | [a, b, c, d] => some (Ipv4Addr.ofOctets a b c d)
  | _ => none

/-- The names a DNS answer carries, with the addresses they belong to. -/
def learnedNames (codec : Codec) (msg : Message) : List (Ipv4Addr × Str) :=
  msg.answers.filterMap fun rec =>
    let name := codec.toAscii rec.name
    match rec.data with
    | .a addr =>
      (Str.stripSuffix ".local".toList (Str.trimEndMatches '.' name)).map fun stripped =>
        (addr, stripped)
    | .ptr target =>
      (ptrNameToIp name).map fun ip =>
        let target := Str.trimEndMatches '.' (codec.toAscii target)
        (ip, (Str.stripSuffix ".local".toList target).getD target)
    | _ => none

/-- The row that is sent for a device; `ts` is the wall clock. -/
def persist (dev : Device) (ts : ℤ) : Db.DeviceOp where
  mac := dev.mac
  ip := dev.ip.map Ipv4Addr.toText
  hostname := dev.hostname
  vendor := dev.vendor
  randomized := dev.randomized
  ts := ts

namespace DeviceStore

variable (store : DeviceStore)

def vendor (mac : Str) : Option Str :=
  if Oui.isRandomized mac then some "(randomized MAC)".toList else store.oui.lookup mac

def hydrateRow (now : ℕ) (row : Db.KnownDevice) (s : Inner) : Option Inner :=
  (Oui.normalize row.mac).map fun mac =>
    let ip := row.ip.bind IpAddr.parseIpv4
    let dev : Device :=
      { mac, ip, hostname := row.hostname, vendor := row.vendor, randomized := row.randomized }
    let dev :=
      { dev with
        writtenFingerprint := some (store.fingerprint dev.toFields)
        lastSeenWritten := some now }
    { s with
      ipToMac := match ip with
        | some ip => s.ipToMac.insert ip mac
        | none => s.ipToMac
      byMac := s.byMac.insert mac dev }

/-- One turn of the loop in `hydrate`, with the number of devices loaded so far. -/
def hydrateStep (now : ℕ) (loaded : ℕ × Inner) (row : Db.KnownDevice) : ℕ × Inner :=
  match store.hydrateRow now row loaded.2 with
  | some s => (loaded.1 + 1, s)
  | none => loaded

/-- Seed the registry from the database. Also returns how many devices were loaded. -/
def hydrate (rows : List Db.KnownDevice) (now : ℕ) (s : Inner) : ℕ × Inner :=
  rows.foldl (store.hydrateStep now) (0, s)

/-- An address and MAC pair, usually from the ARP table. -/
def observe (ip : Ipv4Addr) (mac : Str) (now : ℕ) (s : Inner) : Inner × Outcome :=
  match Oui.normalize mac with
  | none => (s, {})
  | some mac =>
    let pending := s.pendingNames.lookup ip
    let isNew := mac ∉ s.byMac
    let entry := (s.byMac.lookup mac).getD { mac }
    let entry :=
      { entry with
        ip := some ip
        randomized := Oui.isRandomized mac
        vendor := entry.vendor.or (store.vendor mac)
        hostname := pending.or entry.hostname }
    let (due, recorded) := entry.takeWriteSlot store.fingerprint now
    ({ byMac := s.byMac.insert mac recorded
       ipToMac := s.ipToMac.insert ip mac
       pendingNames := s.pendingNames.erase ip },
      { write := if due then some entry else none
        firstSighting := if isNew then some entry else none })

/-- A hostname for a MAC, from DHCP. -/
def observeNamed (mac hostname : Str) (now : ℕ) (s : Inner) : Inner × Outcome :=
  match Oui.normalize mac, sanitizeHostname hostname with
  | some mac, some name =>
    let entry := (s.byMac.lookup mac).getD { mac }
    let entry :=
      { entry with
        hostname := some name
        randomized := Oui.isRandomized mac
        vendor := entry.vendor.or (store.vendor mac) }
    let (due, recorded) := entry.takeWriteSlot store.fingerprint now
    ({ s with byMac := s.byMac.insert mac recorded },
      { write := if due then some recorded else none })
  | _, _ => (s, {})

/-- A hostname for an address. A name a device has already is kept. -/
def observeNameForIp (ip : Ipv4Addr) (hostname : Str) (now : ℕ) (s : Inner) :
    Inner × Outcome :=
  match sanitizeHostname hostname with
  | none => (s, {})
  | some name =>
    match s.ipToMac.lookup ip with
    | some mac =>
      let entry := (s.byMac.lookup mac).getD { mac, ip := some ip }
      let entry := { entry with hostname := entry.hostname.or (some name) }
      let (due, recorded) := entry.takeWriteSlot store.fingerprint now
      ({ s with byMac := s.byMac.insert mac recorded },
        { write := if due then some recorded else none })
    | none => ({ s with pendingNames := s.pendingNames.insert ip name }, {})

end DeviceStore

/-- The first half of `touch_ip`, under the read lock. -/
def touchDue (ip : Ipv4Addr) (now : ℕ) (s : Inner) : Bool :=
  ((s.ipToMac.lookup ip).bind s.byMac.lookup).any (Device.stale now)

/-- The second half of `touch_ip`, under the write lock, with the clock read before the
first. -/
def touchLocked (ip : Ipv4Addr) (now : ℕ) (s : Inner) : Inner × Outcome :=
  match s.ipToMac.lookup ip with
  | none => (s, {})
  | some mac =>
    match (s.byMac.lookup mac).filter (Device.stale now) with
    | none => (s, {})
    | some d =>
      let d := { d with lastSeenWritten := some now }
      ({ s with byMac := s.byMac.insert mac d }, { write := some d })

/-- Bump `last_seen` for whichever device owns this address. -/
def touchIp (ip : IpAddr) (now : ℕ) (s : Inner) : Inner × Outcome :=
  match ip with
  | .v6 _ => (s, {})
  | .v4 v4 => if touchDue v4 now s then touchLocked v4 now s else (s, {})

inductive Call
  | observe (ip : Ipv4Addr) (mac : Str)
  | observeNamed (mac hostname : Str)
  | observeNameForIp (ip : Ipv4Addr) (hostname : Str)
  | touchIp (ip : IpAddr)
  deriving DecidableEq

def Call.exec (store : DeviceStore) (c : Call) (now : ℕ) (s : Inner) : Inner × Outcome :=
  match c with
  | .observe ip mac => store.observe ip mac now s
  | .observeNamed mac hostname => store.observeNamed mac hostname now s
  | .observeNameForIp ip hostname => store.observeNameForIp ip hostname now s
  | .touchIp ip => Devices.touchIp ip now s

/-! ### What the calls do -/

theorem takeWriteSlot_keeps (fingerprint : Fields → UInt64) (now : ℕ) (d : Device) :
    (d.takeWriteSlot fingerprint now).2.mac = d.mac ∧
      (d.takeWriteSlot fingerprint now).2.toFields = d.toFields := by
  rw [Device.takeWriteSlot]
  split <;> exact ⟨rfl, rfl⟩

theorem mac_getD {devices : HashMap Str Device} {m : Str} {init : Device} (hinit : init.mac = m)
    (hkeyed : ∀ d, devices.lookup m = some d → d.mac = m) :
    ((devices.lookup m).getD init).mac = m := by
  cases hold : devices.lookup m with
  | none => exact hinit
  | some old => exact hkeyed old hold

theorem touchLocked_cases (ip : Ipv4Addr) (now : ℕ) (s : Inner) :
    touchLocked ip now s = (s, {}) ∨
      ∃ m d, s.ipToMac.lookup ip = some m ∧ s.byMac.lookup m = some d ∧ d.stale now = true ∧
        touchLocked ip now s =
          ({ s with byMac := s.byMac.insert m { d with lastSeenWritten := some now } },
            { write := some { d with lastSeenWritten := some now } }) := by
  rw [touchLocked]
  cases hip : s.ipToMac.lookup ip with
  | none => exact .inl rfl
  | some m =>
    dsimp only
    cases hold : (s.byMac.lookup m).filter (Device.stale now) with
    | none => exact .inl rfl
    | some d =>
      obtain ⟨hd, hstale⟩ := Option.filter_eq_some_iff.mp hold
      exact .inr ⟨m, d, rfl, hd, hstale, rfl⟩

theorem touchIp_cases (ip : IpAddr) (now : ℕ) (s : Inner) :
    touchIp ip now s = (s, {}) ∨ ∃ v4, touchIp ip now s = touchLocked v4 now s := by
  cases ip with
  | v6 a => exact .inl rfl
  | v4 v4 =>
    rw [touchIp]
    split
    · exact .inr ⟨v4, rfl⟩
    · exact .inl rfl

theorem touchIp_idle_or_beat (ip : IpAddr) (now : ℕ) (s : Inner) :
    touchIp ip now s = (s, {}) ∨
      ∃ v4 m d, s.ipToMac.lookup v4 = some m ∧ s.byMac.lookup m = some d ∧
        touchIp ip now s =
          ({ s with byMac := s.byMac.insert m { d with lastSeenWritten := some now } },
            { write := some { d with lastSeenWritten := some now } }) := by
  obtain hidle | ⟨v4, hlocked⟩ := touchIp_cases ip now s
  · exact .inl hidle
  · obtain hidle | ⟨m, d, hip, hd, -, hbeat⟩ := touchLocked_cases v4 now s
    · exact .inl (hlocked.trans hidle)
    · exact .inr ⟨v4, m, d, hip, hd, hlocked.trans hbeat⟩

/-- What every row keeps, whether it is loaded or skipped, hydration keeps. -/
theorem hydrate_induction (store : DeviceStore) (now : ℕ)
    {P : List Db.KnownDevice → Inner → Prop} (hnil : P [] .empty)
    (hrow : ∀ rows row s, P rows s → P (rows ++ [row]) ((store.hydrateRow now row s).getD s))
    (rows : List Db.KnownDevice) : P rows (store.hydrate rows now .empty).2 := by
  rw [DeviceStore.hydrate]
  induction rows using List.reverseRecOn with
  | nil => exact hnil
  | append_singleton rows row ih =>
    rw [List.foldl_append, List.foldl_cons, List.foldl_nil, DeviceStore.hydrateStep]
    have hnext := hrow rows row _ ih
    cases hload : store.hydrateRow now row (rows.foldl (store.hydrateStep now) (0, .empty)).2 with
    | none =>
      rw [hload] at hnext
      exact hnext
    | some s' =>
      rw [hload] at hnext
      exact hnext

end Devices

end Netwatch
