import Netwatch.Devices.Addresses
import Netwatch.Devices.Reports
import Netwatch.RustStd.AddrCase

/-!
# What the registry can hold

MAC addresses are kept in canonical form, addresses lead to known devices, a name waits only for
an address without a device, and no name reaches the registry past `sanitize_hostname`.

## Main definitions

- `Hostname` — the names that are fit for the dashboard
- `Wellformed` — the representation invariant

## Main results

- `hostname_of_sanitize` — the sanitiser lets nothing else through
- `wellformed_call`, `wellformed_run` — every call keeps the invariant
-/

namespace Netwatch.Devices

open RustStd Hickory Interleaving

/-- Lower-case letters, digits, dots, dashes and underscores, at most 64 of them; no dot at the
end, and not an address. -/
structure Hostname (h : Str) : Prop where
  pos : 1 ≤ h.length
  short : h.length ≤ 64
  chars : ∀ c ∈ h, c.isLower = true ∨ c.isDigit = true ∨ c = '.' ∨ c = '_' ∨ c = '-'
  noDot : h.getLast? ≠ some '.'
  noAddress : IpAddr.parse h = none

/-- What a session holds, keeps waiting and has persisted. -/
structure Wellformed (st : Session) : Prop where
  keyed : ∀ m d, st.inner.byMac.lookup m = some d → Oui.normalize m = some m ∧ d.mac = m
  closed : Closed st.inner
  apart : ∀ x, x ∈ st.inner.pendingNames → x ∉ st.inner.ipToMac
  held : ∀ m d h, st.inner.byMac.lookup m = some d → d.hostname = some h → Hostname h
  pending : ∀ x h, st.inner.pendingNames.lookup x = some h → Hostname h
  persisted : ∀ d ∈ st.persisted, ∀ h, d.hostname = some h → Hostname h

/-! ### The sanitiser -/

theorem length_le_len (s : Str) : s.length ≤ Str.len s := by
  induction s with
  | nil => exact le_rfl
  | cons c s ih =>
    have hpos := Char.utf8Size_pos c
    rw [Str.len, List.map_cons, List.sum_cons, List.length_cons]
    rw [Str.len] at ih
    omega

theorem isLower_iff {c : Char} : c.isLower = true ↔ 97 ≤ c.toNat ∧ c.toNat ≤ 122 := by
  show (decide (c.val ≥ 97) && decide (c.val ≤ 122)) = true ↔ _
  rw [Bool.and_eq_true, decide_eq_true_eq, decide_eq_true_eq]
  exact and_congr UInt32.le_iff_toNat_le UInt32.le_iff_toNat_le

theorem isUpper_iff {c : Char} : c.isUpper = true ↔ 65 ≤ c.toNat ∧ c.toNat ≤ 90 := by
  show decide (c.val ≥ 65 ∧ c.val ≤ 90) = true ↔ _
  rw [decide_eq_true_eq]
  exact and_congr UInt32.le_iff_toNat_le UInt32.le_iff_toNat_le

theorem toLower_allowed {c : Char}
    (h : c.isAlphanum = true ∨ c = '-' ∨ c = '_' ∨ c = '.') :
    c.toLower.isLower = true ∨ c.toLower.isDigit = true ∨ c.toLower = '.' ∨ c.toLower = '_' ∨
      c.toLower = '-' := by
  rcases h with h | rfl | rfl | rfl
  · have h : (c.isUpper || c.isLower || c.isDigit) = true := h
    rw [Bool.or_eq_true, Bool.or_eq_true, isUpper_iff, isLower_iff, IpAddr.isDigit_iff] at h
    rw [isLower_iff, IpAddr.isDigit_iff]
    rcases h with (⟨hlow, hhigh⟩ | hlower) | hdigit
    · have hval := Str.toNat_toLower_of_upper hlow hhigh
      exact .inl (by omega)
    · rcases Str.toLower_cases c with hsame | hupper
      · exact .inl (by rw [hsame]; exact hlower)
      · omega
    · rcases Str.toLower_cases c with hsame | hupper
      · exact .inr (.inl (by rw [hsame]; exact hdigit))
      · omega
  · decide
  · decide
  · decide

theorem getLast?_trimEndMatches (c : Char) (s : Str) :
    (Str.trimEndMatches c s).getLast? ≠ some c := by
  intro h
  have hne : s.rdropWhile (· == c) ≠ [] := by
    rintro hnil
    rw [Str.trimEndMatches, hnil] at h
    cases h
  have hlast := List.rdropWhile_last_not (· == c) s hne
  rw [Str.trimEndMatches, List.getLast?_eq_some_getLast hne] at h
  exact hlast (beq_iff_eq.mpr (Option.some.inj h))

/-- What the sanitiser lets through is a hostname, for every text. -/
theorem hostname_of_sanitize {raw h : Str} (hs : sanitizeHostname raw = some h) : Hostname h := by
  have hdot := getLast?_trimEndMatches '.' (Str.trim raw)
  rw [sanitizeHostname] at hs
  generalize Str.trimEndMatches '.' (Str.trim raw) = t at hs hdot
  split at hs
  · cases hs
  · next hlen =>
    rw [not_or, Nat.not_lt] at hlen
    split at hs
    · cases hs
    · next hall =>
      split at hs
      · cases hs
      · next haddr =>
        obtain rfl := Option.some.inj hs
        have hle := length_le_len t
        have hpos := List.length_pos_iff.mpr hlen.1
        have hlength : (Str.toAsciiLowercase t).length = t.length := List.length_map _
        simp only [Bool.not_eq_true, Bool.not_eq_false', List.all_eq_true, Bool.or_eq_true,
          beq_iff_eq, or_assoc] at hall
        refine ⟨by omega, by omega, fun c hc => ?_, fun hlast => ?_, ?_⟩
        · obtain ⟨d, hd, rfl⟩ := List.mem_map.mp hc
          exact toLower_allowed (hall d hd)
        · rw [Str.toAsciiLowercase, List.getLast?_map, Option.map_eq_some_iff] at hlast
          obtain ⟨d, hd, hlower⟩ := hlast
          rw [IpAddr.toLower_eq_iff (by decide)] at hlower
          exact hdot (hlower ▸ hd)
        · rw [IpAddr.parse_toAsciiLowercase]
          exact Option.not_isSome_iff_eq_none.mp haddr

/-! ### One call -/

/-- A device is shown under a proper name, or under none. -/
def Device.Named (d : Device) : Prop := ∀ h, d.hostname = some h → Hostname h

theorem named_slot {d : Device} (h : d.Named) (fingerprint : Fields → UInt64) (now : ℕ) :
    (d.takeWriteSlot fingerprint now).2.Named := by
  intro name hname
  rw [(takeWriteSlot_keeps fingerprint now d).2] at hname
  exact h name hname

theorem named_insert {devices : HashMap Str Device} (h : ∀ m d, devices.lookup m = some d → d.Named)
    {m : Str} {d : Device} (hd : d.Named) (m' : Str) (d' : Device)
    (hlookup : (devices.insert m d).lookup m' = some d') : d'.Named := by
  obtain ⟨-, rfl⟩ | ⟨-, hlookup⟩ := HashMap.of_lookup_insert hlookup
  · exact hd
  · exact h m' d' hlookup

theorem named_getD {devices : HashMap Str Device} (h : ∀ m d, devices.lookup m = some d → d.Named)
    (m : Str) {init : Device} (hinit : init.hostname = none) :
    ((devices.lookup m).getD init).Named := by
  cases hold : devices.lookup m with
  | none =>
    intro name hname
    have hnone := hinit.symm.trans hname
    cases hnone
  | some d => exact h m d hold

theorem named_or {a b : Option Str} (ha : ∀ h, a = some h → Hostname h)
    (hb : ∀ h, b = some h → Hostname h) (h : Str) (hab : a.or b = some h) : Hostname h := by
  cases a with
  | none => exact hb h hab
  | some name => exact ha h hab

/-- Everything named in a registry state and in a row. -/
structure NamesOk (s : Inner) (write : Option Device) : Prop where
  held : ∀ m d, s.byMac.lookup m = some d → d.Named
  pending : ∀ x h, s.pendingNames.lookup x = some h → Hostname h
  apart : ∀ x, x ∈ s.pendingNames → x ∉ s.ipToMac
  row : ∀ d, write = some d → d.Named

theorem NamesOk.idle {s : Inner} {write : Option Device} (h : NamesOk s write) :
    NamesOk s none := ⟨h.held, h.pending, h.apart, fun d hd => by cases hd⟩

/-- One entry gets a new value, and perhaps a row. -/
theorem NamesOk.update {s : Inner} {write : Option Device} (h : NamesOk s write) {d : Device}
    (hd : d.Named) (m : Str) (p : Bool) :
    NamesOk { s with byMac := s.byMac.insert m d } (if p then some d else none) := by
  refine ⟨named_insert h.held hd, h.pending, h.apart, fun w hw => ?_⟩
  obtain ⟨-, hw⟩ := Option.ite_none_right_eq_some.mp hw
  exact Option.some.inj hw ▸ hd

theorem NamesOk.observe {s : Inner} {write : Option Device} (h : NamesOk s write)
    (store : DeviceStore) (ip : Ipv4Addr) (mac : Str) (now : ℕ) :
    NamesOk (store.observe ip mac now s).1 (store.observe ip mac now s).2.write := by
  rw [DeviceStore.observe]
  cases Oui.normalize mac with
  | none => exact h.idle
  | some m =>
    -- the name that waits for the address is handed over
    have hentry := named_or (h.pending ip)
      (named_getD h.held m (show ({ mac := m } : Device).hostname = none from rfl))
    refine ⟨?_, fun x name hx => ?_, fun x hx => ?_, fun w hw => ?_⟩
    · apply named_insert h.held
      apply named_slot
      exact hentry
    · by_cases heq : x = ip
      · rw [heq, AList.lookup_erase] at hx
        cases hx
      · rw [AList.lookup_erase_ne heq] at hx
        exact h.pending x name hx
    · rw [AList.mem_erase] at hx
      rw [AList.mem_insert, not_or]
      exact ⟨hx.1, h.apart x hx.2⟩
    · obtain ⟨-, hw⟩ := Option.ite_none_right_eq_some.mp hw
      rw [← Option.some.inj hw]
      exact hentry

theorem NamesOk.observeNamed {s : Inner} {write : Option Device} (h : NamesOk s write)
    (store : DeviceStore) (mac hostname : Str) (now : ℕ) :
    NamesOk (store.observeNamed mac hostname now s).1
      (store.observeNamed mac hostname now s).2.write := by
  rw [DeviceStore.observeNamed]
  split
  · next m name _ hname =>
    apply h.update
    apply named_slot
    intro name' hname'
    rw [← Option.some.inj hname']
    exact hostname_of_sanitize hname
  · exact h.idle

theorem NamesOk.observeNameForIp {s : Inner} {write : Option Device} (h : NamesOk s write)
    (store : DeviceStore) (ip : Ipv4Addr) (hostname : Str) (now : ℕ) :
    NamesOk (store.observeNameForIp ip hostname now s).1
      (store.observeNameForIp ip hostname now s).2.write := by
  rw [DeviceStore.observeNameForIp]
  cases hname : sanitizeHostname hostname with
  | none => exact h.idle
  | some name =>
    have hok := hostname_of_sanitize hname
    cases hip : s.ipToMac.lookup ip with
    | some m =>
      apply h.update
      apply named_slot
      apply named_or (named_getD h.held m rfl)
      intro name' hname'
      exact Option.some.inj hname' ▸ hok
    | none =>
      -- the name waits for an address that leads nowhere
      refine ⟨h.held, fun x name' hx => ?_, fun x hx => ?_, fun d hd => by cases hd⟩
      · obtain ⟨-, rfl⟩ | ⟨-, hx⟩ := HashMap.of_lookup_insert hx
        · exact hok
        · exact h.pending x name' hx
      · rw [AList.mem_insert] at hx
        rcases hx with rfl | hold
        · exact AList.lookup_eq_none.mp hip
        · exact h.apart x hold

theorem NamesOk.touchIp {s : Inner} {write : Option Device} (h : NamesOk s write) (ip : IpAddr)
    (now : ℕ) : NamesOk (touchIp ip now s).1 (touchIp ip now s).2.write := by
  obtain hidle | ⟨-, m, d, -, hd, hbeat⟩ := touchIp_idle_or_beat ip now s
  · rw [hidle]
    exact h.idle
  · rw [hbeat]
    have hnamed : ({ d with lastSeenWritten := some now } : Device).Named := h.held m d hd
    exact h.update hnamed m true

theorem NamesOk.exec {s : Inner} {write : Option Device} (h : NamesOk s write)
    (store : DeviceStore) (c : Call) (now : ℕ) :
    NamesOk (c.exec store now s).1 (c.exec store now s).2.write := by
  cases c with
  | observe ip mac => exact h.observe store ip mac now
  | observeNamed mac hostname => exact h.observeNamed store mac hostname now
  | observeNameForIp ip hostname => exact h.observeNameForIp store ip hostname now
  | touchIp ip => exact h.touchIp ip now

theorem Wellformed.keyed_inner {st : Session} (h : Wellformed st) : Keyed st.inner := by
  refine ⟨fun m d hd => (h.keyed m d hd).symm, fun x m hx => ?_⟩
  obtain ⟨d, hd⟩ := Option.isSome_iff_exists.mp (AList.lookup_isSome.mpr (h.closed x m hx))
  exact (h.keyed m d hd).1

theorem wellformed_call {st : Session} (h : Wellformed st) (store : DeviceStore)
    (c : ClockedCall) : Wellformed (st.call store c) := by
  have hnames : NamesOk st.inner none :=
    ⟨fun m d hd name => h.held m d name hd, h.pending, h.apart, fun d hd => by cases hd⟩
  have hafter := hnames.exec store c.call c.now
  have hkeyed := keyed_exec h.keyed_inner store c.call c.now
  refine ⟨fun m d hd => (hkeyed.byMac m d hd).symm, closed_exec store h.closed c.call c.now,
    hafter.apart, fun m d name hd => hafter.held m d hd name, hafter.pending, fun d hd => ?_⟩
  rcases List.mem_append.mp hd with hold | hnew
  · exact h.persisted d hold
  · exact hafter.row d (Option.mem_toList.mp hnew)

/-! ### Every run -/

/-- A hydrated device has the name of its row, and no name waits. -/
theorem named_hydrate (store : DeviceStore) (now : ℕ) (rows : List Db.KnownDevice) :
    (∀ m d, (store.hydrate rows now .empty).2.byMac.lookup m = some d →
      Oui.normalize m = some m ∧ d.mac = m ∧ ∃ row ∈ rows, d.hostname = row.hostname) ∧
    (store.hydrate rows now .empty).2.pendingNames = ∅ := by
  refine hydrate_induction store now (P := fun rows s => (∀ m d, s.byMac.lookup m = some d →
    Oui.normalize m = some m ∧ d.mac = m ∧ ∃ row ∈ rows, d.hostname = row.hostname) ∧
      s.pendingNames = ∅) ?_ ?_ rows
  · refine ⟨fun m d hd => ?_, rfl⟩
    cases hd
  · rintro rows row s ⟨hdevices, hpending⟩
    have hold : ∀ m d, s.byMac.lookup m = some d → Oui.normalize m = some m ∧ d.mac = m ∧
        ∃ row' ∈ rows ++ [row], d.hostname = row'.hostname := by
      intro m d hd
      obtain ⟨hcanonical, hmac, row', hrow', heq⟩ := hdevices m d hd
      exact ⟨hcanonical, hmac, row', List.mem_append_left _ hrow', heq⟩
    rw [DeviceStore.hydrateRow]
    cases hmac : Oui.normalize row.mac with
    | none => exact ⟨hold, hpending⟩
    | some m₀ =>
      refine ⟨fun m d hd => ?_, hpending⟩
      obtain ⟨rfl, rfl⟩ | ⟨-, hd⟩ := HashMap.of_lookup_insert hd
      · exact ⟨Oui.normalize_idem hmac, rfl, row, by simp, rfl⟩
      · exact hold m d hd

theorem wellformed_start (store : DeviceStore) (now : ℕ) {rows : List Db.KnownDevice}
    (hrows : ∀ row ∈ rows, ∀ h, row.hostname = some h → sanitizeHostname h = some h) :
    Wellformed (.start store rows now) := by
  obtain ⟨hdevices, hpending⟩ := named_hydrate store now rows
  refine ⟨fun m d hd => ?_, (known_hydrate store rows now).2, fun x hx => ?_,
    fun m d h hd hh => ?_, fun x h hx => ?_, fun d hd => ?_⟩
  · exact ⟨(hdevices m d hd).1, (hdevices m d hd).2.1⟩
  · rw [Session.start, hpending] at hx
    exact absurd hx (AList.notMem_empty x)
  · obtain ⟨row, hrow, heq⟩ := (hdevices m d hd).2.2
    exact hostname_of_sanitize (hrows row hrow h (heq.symm.trans hh))
  · rw [Session.start, hpending] at hx
    cases hx
  · cases hd

/-- Hydrated from sanitised names, the registry is well formed after every report. -/
theorem wellformed_run (codec : Codec) (store : DeviceStore) {rows : List Db.KnownDevice}
    (hrows : ∀ row ∈ rows, ∀ h, row.hostname = some h → sanitizeHostname h = some h) (now : ℕ)
    (reports : List TimedReport) :
    Wellformed (run (Session.report codec store) reports (.start store rows now)) := by
  refine run_invariant (fun r st hst => ?_) reports (wellformed_start store now hrows)
  refine Session.report_invariant codec store (fun c _ st hst => ?_) hst
  exact wellformed_call hst store c

def namedRow : Db.KnownDevice :=
  ⟨kitchenMac, some "192.168.1.9".toList, some "kitchen-pi".toList, none, false⟩

/-- A pending name with upper case and a trailing dot, and its hand-over. -/
def renamed : List TimedReport :=
  [⟨.call (.observeNameForIp (Ipv4Addr.ofOctets 192 168 1 10) " Kitchen-TV. ".toList), id⟩,
    ⟨.call (.observe (Ipv4Addr.ofOctets 192 168 1 10) kitchenMac), id⟩]

theorem wellformed_run_renamed :
    Wellformed (run (Session.report (.ofTable []) plainStore) renamed
      (.start plainStore [namedRow] 0)) := by
  have hrows : ∀ row ∈ [namedRow], ∀ h, row.hostname = some h → sanitizeHostname h = some h := by
    intro row hrow h hh
    rw [List.mem_singleton.mp hrow] at hh
    have hname : sanitizeHostname "kitchen-pi".toList = some "kitchen-pi".toList := by decide
    exact Option.some.inj hh ▸ hname
  exact wellformed_run (.ofTable []) plainStore hrows 0 renamed

end Netwatch.Devices
