import Netwatch.Devices.Registry
import Netwatch.Interleaving.Run

/-!
# Reports to the registry

Discovery reports to the registry one call at a time, or with a DNS answer that stands for
several calls. A session is a registry that was hydrated once and has taken reports since.

## Main definitions

- `Report.calls` — the calls a report stands for
- `Session` — the registry with the devices it has persisted
- `Call.reports` — the MAC a call makes known
- `Closed` — every address leads to a known device

## Main results

- `Session.report_invariant` — what every call keeps, every report keeps
- `closed_exec`, `known_hydrate` — the reverse index leads to known devices
-/

namespace Netwatch.Devices

open RustStd Hickory Interleaving

/-- What discovery can report. -/
inductive Report
  | call (c : Call)
  | learnFromDns (msg : Message)

def Report.calls (codec : Codec) : Report → List Call
  | .call c => [c]
  | .learnFromDns msg => (learnedNames codec msg).map fun (ip, name) => .observeNameForIp ip name

/-- A report with the readings of the monotone clock during it. -/
structure TimedReport where
  report : Report
  clock : ℕ → ℕ

/-- A call with the clock as the registry reads it, and later the alert sink. -/
structure ClockedCall where
  call : Call
  now : ℕ
  raisedAt : ℕ

def TimedReport.calls (codec : Codec) (r : TimedReport) : List ClockedCall :=
  (r.report.calls codec).mapIdx fun i c => ⟨c, r.clock (2 * i), r.clock (2 * i + 1)⟩

structure Session where
  inner : Inner
  /-- What has been sent to the database. -/
  persisted : List Device

namespace Session

def start (store : DeviceStore) (rows : List Db.KnownDevice) (now : ℕ) : Session :=
  ⟨(store.hydrate rows now .empty).2, []⟩

def call (store : DeviceStore) (c : ClockedCall) (st : Session) : Session :=
  let (inner, outcome) := c.call.exec store c.now st.inner
  ⟨inner, st.persisted ++ outcome.write.toList⟩

def report (codec : Codec) (store : DeviceStore) (r : TimedReport) (st : Session) : Session :=
  run (call store) (r.calls codec) st

end Session

def hydratedMacs (known : List Db.KnownDevice) : List Str :=
  known.filterMap fun row => Oui.normalize row.mac

/-- The MAC a call makes known. -/
def Call.reports : Call → Option Str
  | .observe _ mac => Oui.normalize mac
  | .observeNamed mac hostname =>
    if (sanitizeHostname hostname).isSome then Oui.normalize mac else none
  | .observeNameForIp .. | .touchIp _ => none

/-- Every address leads to a known device. -/
def Closed (s : Inner) : Prop := ∀ ip m, s.ipToMac.lookup ip = some m → m ∈ s.byMac

/-- All calls of a sequence of reports. -/
def allCalls (codec : Codec) (reports : List TimedReport) : List Call :=
  reports.flatMap fun r => r.report.calls codec

theorem map_call_calls (codec : Codec) (r : TimedReport) :
    (r.calls codec).map ClockedCall.call = r.report.calls codec := by
  refine List.ext_getElem (by simp [TimedReport.calls]) fun i hi hi' => ?_
  simp [TimedReport.calls]

theorem calls_of_call (codec : Codec) {r : TimedReport} {c : Call} (h : r.report = .call c) :
    r.calls codec = [⟨c, r.clock 0, r.clock 1⟩] := by
  rw [TimedReport.calls, h]
  rfl

theorem calls_of_learnFromDns (codec : Codec) {r : TimedReport} {msg : Message}
    (h : r.report = .learnFromDns msg) {c : ClockedCall} (hc : c ∈ r.calls codec) :
    ∃ ip name, c.call = .observeNameForIp ip name := by
  have hmem : c.call ∈ r.report.calls codec := by
    rw [← map_call_calls]
    exact List.mem_map_of_mem hc
  rw [h, Report.calls, List.mem_map] at hmem
  obtain ⟨⟨ip, name⟩, _, heq⟩ := hmem
  exact ⟨ip, name, heq.symm⟩

theorem Session.report_of_call (codec : Codec) (store : DeviceStore) {r : TimedReport} {c : Call}
    (h : r.report = .call c) (st : Session) :
    report codec store r st = call store ⟨c, r.clock 0, r.clock 1⟩ st := by
  rw [report, calls_of_call codec h]
  rfl

/-- What every call of a report keeps, the report keeps. -/
theorem Session.report_invariant {I : Session → Prop} (codec : Codec) (store : DeviceStore)
    {r : TimedReport} (hcall : ∀ c ∈ r.calls codec, ∀ st, I st → I (call store c st))
    {st : Session} (h : I st) : I (report codec store r st) :=
  List.foldlRecOn (r.calls codec) (fun st c => call store c st) h fun st hst c hc =>
    hcall c hc st hst

variable {s : Inner}

theorem touchIp_known (hclosed : Closed s) (ip : IpAddr) (now : ℕ) :
    (∀ m, m ∈ (touchIp ip now s).1.byMac ↔ m ∈ s.byMac) ∧
      (touchIp ip now s).1.ipToMac = s.ipToMac ∧ (touchIp ip now s).2.firstSighting = none := by
  obtain hidle | ⟨v4, mac, d, hip, -, hbeat⟩ := touchIp_idle_or_beat ip now s
  · rw [hidle]
    exact ⟨fun _ => Iff.rfl, rfl, rfl⟩
  · rw [hbeat]
    refine ⟨fun m => ?_, rfl, rfl⟩
    rw [AList.mem_insert]
    exact ⟨fun h => h.elim (fun hm => hm ▸ hclosed v4 mac hip) id, .inr⟩

/-- A call makes known what it reports. -/
theorem mem_byMac_exec (store : DeviceStore) (hclosed : Closed s) (c : Call) (now : ℕ) (m : Str) :
    m ∈ (c.exec store now s).1.byMac ↔ m ∈ s.byMac ∨ c.reports = some m := by
  cases c with
  | observe ip mac =>
    rw [Call.exec, DeviceStore.observe, Call.reports]
    cases Oui.normalize mac with
    | none => simp
    | some m' =>
      dsimp only
      rw [AList.mem_insert, Option.some.injEq, eq_comm, or_comm]
  | observeNamed mac hostname =>
    rw [Call.exec, DeviceStore.observeNamed, Call.reports]
    cases Oui.normalize mac with
    | none => simp
    | some m' =>
      cases sanitizeHostname hostname with
      | none => simp
      | some name =>
        dsimp only
        rw [AList.mem_insert, Option.isSome_some, if_pos rfl, Option.some.injEq, eq_comm, or_comm]
  | observeNameForIp ip hostname =>
    rw [Call.exec, DeviceStore.observeNameForIp, Call.reports]
    cases sanitizeHostname hostname with
    | none => simp
    | some name =>
      cases hip : s.ipToMac.lookup ip with
      | none => simp
      | some mac =>
        -- the index points into the registry
        have hmac := hclosed ip mac hip
        simp only [AList.mem_insert, reduceCtorEq, or_false]
        exact ⟨fun h => h.elim (fun hm => hm ▸ hmac) id, .inr⟩
  | touchIp ip =>
    rw [Call.exec, Call.reports]
    simp only [reduceCtorEq, or_false]
    exact (touchIp_known hclosed ip now).1 m

theorem ipToMac_exec (store : DeviceStore) (hclosed : Closed s) (c : Call) (now : ℕ)
    (ip : Ipv4Addr) (m : Str)
    (h : (c.exec store now s).1.ipToMac.lookup ip = some m) :
    s.ipToMac.lookup ip = some m ∨ c.reports = some m := by
  cases c with
  | observe ip' mac =>
    rw [Call.exec, DeviceStore.observe] at h
    rw [Call.reports]
    cases hmac : Oui.normalize mac with
    | none =>
      rw [hmac] at h
      exact .inl h
    | some m' =>
      rw [hmac] at h
      obtain ⟨rfl, rfl⟩ | ⟨-, h⟩ := HashMap.of_lookup_insert h
      · exact .inr rfl
      · exact .inl h
  | observeNamed mac hostname =>
    rw [Call.exec, DeviceStore.observeNamed] at h
    split at h
    · exact .inl h
    · exact .inl h
  | observeNameForIp ip' hostname =>
    rw [Call.exec, DeviceStore.observeNameForIp] at h
    split at h
    · exact .inl h
    · split at h
      · exact .inl h
      · exact .inl h
  | touchIp ip' =>
    rw [Call.exec, (touchIp_known hclosed ip' now).2.1] at h
    exact .inl h

theorem closed_exec (store : DeviceStore) (hclosed : Closed s) (c : Call) (now : ℕ) :
    Closed (c.exec store now s).1 := by
  intro ip m h
  rw [mem_byMac_exec store hclosed]
  obtain h | h := ipToMac_exec store hclosed c now ip m h
  · exact .inl (hclosed ip m h)
  · exact .inr h

theorem known_hydrateRow (store : DeviceStore) (now : ℕ) (row : Db.KnownDevice)
    (hclosed : Closed s) :
    (∀ m, m ∈ ((store.hydrateRow now row s).getD s).byMac ↔
        m ∈ s.byMac ∨ Oui.normalize row.mac = some m) ∧
      Closed ((store.hydrateRow now row s).getD s) := by
  rw [DeviceStore.hydrateRow]
  cases Oui.normalize row.mac with
  | none => exact ⟨fun m => by simp, hclosed⟩
  | some mac =>
    have hmem : ∀ m d, m ∈ s.byMac.insert mac d ↔ m ∈ s.byMac ∨ some mac = some m := by
      intro m d
      rw [AList.mem_insert, Option.some.injEq, eq_comm, or_comm]
    refine ⟨fun m => hmem m _, ?_⟩
    intro ip m hip
    refine (hmem m _).mpr ?_
    dsimp only [Option.map_some, Option.getD_some] at hip
    split at hip
    · next ip' _ =>
      obtain ⟨rfl, rfl⟩ | ⟨-, hip⟩ := HashMap.of_lookup_insert hip
      · exact .inr rfl
      · exact .inl (hclosed ip m hip)
    · exact .inl (hclosed ip m hip)

/-- Hydration knows the MACs of its rows, and the addresses lead to them. -/
theorem known_hydrate (store : DeviceStore) (known : List Db.KnownDevice) (now : ℕ) :
    (∀ m, m ∈ (store.hydrate known now .empty).2.byMac ↔ m ∈ hydratedMacs known) ∧
      Closed (store.hydrate known now .empty).2 := by
  refine hydrate_induction store now
    (P := fun rows s => (∀ m, m ∈ s.byMac ↔ m ∈ hydratedMacs rows) ∧ Closed s) ?_ ?_ known
  · refine ⟨fun m => ?_, fun _ _ h => nomatch h⟩
    simp [Inner.empty, hydratedMacs]
  · rintro rows row s ⟨hmem, hclosed⟩
    obtain ⟨hrow, hclosed'⟩ := known_hydrateRow store now row hclosed
    refine ⟨fun m => ?_, hclosed'⟩
    rw [hrow, hmem]
    simp [hydratedMacs]

end Netwatch.Devices
