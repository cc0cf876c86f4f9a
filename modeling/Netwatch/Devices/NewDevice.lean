import Netwatch.Alerts
import Netwatch.Devices.Persisted
import Netwatch.Devices.Reports

/-!
# Who is announced

Devices become known by hydration, by ARP (`observe`) and by DHCP (`observe_named`). Only
`observe` announces a device, and it does so whatever `alerts.new_device` says.

## Main definitions

- `Watch` — the registry wired to the alert sink
- `Call.announces` — the MAC a call may announce
- `Watch.AnnouncedOnce` — one alert for each new device, if the configuration wants it

## Main results

- `announcedOnce_iff` — what the first report of each new device has to be
-/

namespace Netwatch.Devices

open RustStd Hickory Interleaving Alerts

structure Watch where
  inner : Inner
  sink : Option AlertSink

namespace Watch

/-- `main` gives the registry the sink of the configuration and hydrates it. -/
def start (store : DeviceStore) (cfg : AlertConfig) (known : List Db.KnownDevice) (now : ℕ) :
    Watch :=
  ⟨(store.hydrate known now .empty).2, spawn cfg⟩

def call (store : DeviceStore) (c : ClockedCall) (st : Watch) : Watch :=
  let (inner, outcome) := c.call.exec store c.now st.inner
  match outcome.firstSighting, st.sink with
  | some d, some sink =>
    ⟨inner, some (sink.raise (.newDevice d.mac d.hostname d.vendor) c.raisedAt)⟩
  | _, _ => ⟨inner, st.sink⟩

def report (codec : Codec) (store : DeviceStore) (r : TimedReport) (st : Watch) : Watch :=
  run (call store) (r.calls codec) st

def raised (st : Watch) : List Alert := st.sink.elim [] AlertSink.queue

/-- How often a device has been announced. -/
def announcements (m : Str) (st : Watch) : ℕ :=
  st.raised.countP fun a => a.kind = newDeviceKind ∧ a.subject = m

end Watch

/-- Every device the registry knows has been announced as often as it should be. -/
def Watch.AnnouncedOnce (cfg : AlertConfig) (known : List Db.KnownDevice) (st : Watch) : Prop :=
  ∀ m ∈ st.inner.byMac,
    st.announcements m = if m ∈ hydratedMacs known ∨ cfg.newDevice = false then 0 else 1

/-- The MAC a call announces if it is not known yet. -/
def Call.announces : Call → Option Str
  | .observe _ mac => Oui.normalize mac
  | _ => none

def firstReport (m : Str) (calls : List Call) : Option Call :=
  calls.find? fun c => c.reports = some m

theorem reports_of_announces {c : Call} {m : Str} (h : c.announces = some m) :
    c.reports = some m := by
  cases c with
  | observe ip mac => exact h
  | observeNamed mac hostname => cases h
  | observeNameForIp ip hostname => cases h
  | touchIp ip => cases h

variable {s : Inner}

/-- Only `observe` reports a first sighting, and only of an unknown MAC. -/
theorem firstSighting_exec (store : DeviceStore) (hclosed : Closed s) (c : Call) (now : ℕ) :
    (c.exec store now s).2.firstSighting.map Device.mac =
      c.announces.filter fun m => m ∉ s.byMac := by
  cases c with
  | observe ip mac =>
    rw [Call.exec, DeviceStore.observe, Call.announces]
    cases Oui.normalize mac with
    | none => rfl
    | some m =>
      by_cases hm : m ∈ s.byMac
      · simp [hm, Option.filter_some]
      · have hnone : s.byMac.lookup m = none := AList.lookup_eq_none.mpr hm
        simp [hm, hnone, Option.filter_some]
  | observeNamed mac hostname =>
    rw [Call.exec, DeviceStore.observeNamed]
    split <;> rfl
  | observeNameForIp ip hostname =>
    rw [Call.exec, DeviceStore.observeNameForIp]
    split
    · rfl
    · split <;> rfl
  | touchIp ip =>
    rw [Call.exec, (touchIp_known hclosed ip now).2.2]
    rfl

/-! ### Counting the announcements -/

/-- After the calls `done`: who is known, and who has been announced. -/
structure Counted (known : List Db.KnownDevice) (done : List Call) (st : Watch) : Prop where
  closed : Closed st.inner
  mem : ∀ m, m ∈ st.inner.byMac ↔ m ∈ hydratedMacs known ∨ (firstReport m done).isSome = true
  cooldown : ∃ sink, st.sink = some sink ∧
    ∀ m, (newDeviceKind, m) ∈ sink.cooldown → m ∈ st.inner.byMac
  count : ∀ m, st.announcements m =
    if m ∉ hydratedMacs known ∧ (firstReport m done).any (fun c => c.announces.isSome) = true
    then 1 else 0

theorem firstReport_concat (m : Str) (done : List Call) (c : Call) :
    firstReport m (done ++ [c]) =
      (firstReport m done).or (if c.reports = some m then some c else none) := by
  rw [firstReport, List.find?_append, firstReport]
  by_cases h : c.reports = some m
  · simp [h]
  · simp [h]

theorem counted_start (store : DeviceStore) {cfg : AlertConfig} (henabled : cfg.enabled = true)
    (known : List Db.KnownDevice) (now : ℕ) :
    Counted known [] (Watch.start store cfg known now) := by
  obtain ⟨hmem, hclosed⟩ := known_hydrate store known now
  have hspawn : spawn cfg = some ⟨cfg.cooldownMins.toNat * 60 * 10 ^ 9, ∅, []⟩ := by
    simp [spawn, henabled]
  refine ⟨hclosed, fun m => ?_, ⟨_, hspawn, fun m h => ?_⟩, fun m => ?_⟩
  · simp [Watch.start, hmem, firstReport]
  · simp at h
  · simp [Watch.announcements, Watch.raised, Watch.start, hspawn, firstReport]

/-- A device that has reported before, or is reported by another call, keeps its first report. -/
theorem firstReport_concat_of_ne {m : Str} {done : List Call} {c : Call}
    (h : (firstReport m done).isSome = true ∨ c.reports ≠ some m) :
    firstReport m (done ++ [c]) = firstReport m done := by
  rw [firstReport_concat]
  cases hfirst : firstReport m done with
  | some c' => rfl
  | none =>
    rw [hfirst] at h
    simp only [Option.isSome_none, Bool.false_eq_true, false_or] at h
    rw [if_neg h, Option.none_or]

/-- A call that announces nobody leaves every device as announced as it was. -/
theorem any_announces_concat {known : List Db.KnownDevice} {done : List Call} {st : Watch}
    (h : Counted known done st) {c : Call}
    (hquiet : c.announces.filter (fun m => m ∉ st.inner.byMac) = none) {m : Str}
    (hm : m ∉ hydratedMacs known) :
    (firstReport m (done ++ [c])).any (fun c => c.announces.isSome) =
      (firstReport m done).any fun c => c.announces.isSome := by
  by_cases hrep : (firstReport m done).isSome = true ∨ c.reports ≠ some m
  · rw [firstReport_concat_of_ne hrep]
  · -- the call is the first report of a device that the registry does not know
    simp only [not_or, Bool.not_eq_true, Option.isSome_eq_false_iff, Option.isNone_iff_eq_none,
      not_not] at hrep
    rw [firstReport_concat, hrep.1, if_pos hrep.2, Option.none_or]
    have hnew : m ∉ st.inner.byMac := by
      rw [h.mem, hrep.1]
      simp [hm]
    cases hann : c.announces with
    | none => simp [hann]
    | some m' =>
      obtain rfl : m' = m :=
        Option.some.inj ((reports_of_announces hann).symm.trans hrep.2)
      rw [hann, Option.filter_some, if_pos (by simpa using hnew)] at hquiet
      cases hquiet

section Calls

variable {store : DeviceStore} {known : List Db.KnownDevice} {done : List Call} {st : Watch}

theorem known_call (h : Counted known done st) (c : ClockedCall) (m : Str) :
    m ∈ (c.call.exec store c.now st.inner).1.byMac ↔
      m ∈ hydratedMacs known ∨ (firstReport m (done ++ [c.call])).isSome = true := by
  rw [mem_byMac_exec store h.closed c.call c.now, h.mem, firstReport_concat, or_assoc]
  cases firstReport m done with
  | some c' => simp
  | none => by_cases hr : c.call.reports = some m <;> simp [hr]

/-- A call without a first sighting raises nothing. -/
theorem counted_quiet (h : Counted known done st) (c : ClockedCall)
    (hsight : (c.call.exec store c.now st.inner).2.firstSighting = none) :
    Counted known (done ++ [c.call]) (st.call store c) := by
  obtain ⟨sink, hsink, hcool⟩ := h.cooldown
  have hmem := mem_byMac_exec store h.closed c.call c.now
  have hfirst := firstSighting_exec store h.closed c.call c.now
  have hcall : st.call store c = ⟨(c.call.exec store c.now st.inner).1, st.sink⟩ := by
    simp only [Watch.call, hsight]
  rw [hsight] at hfirst
  rw [hcall]
  refine ⟨closed_exec store h.closed c.call c.now, known_call h c,
    ⟨sink, hsink, fun m hm => (hmem m).mpr (.inl (hcool m hm))⟩, ?_⟩
  intro m
  refine (h.count m).trans ?_
  by_cases hm : m ∈ hydratedMacs known
  · simp [hm]
  · simp only [hm, any_announces_concat h hfirst.symm hm]

/-- A first sighting is queued: a MAC that is new is not in its cooldown either. -/
theorem counted_sighting (h : Counted known done st) (c : ClockedCall) {d : Device}
    (hsight : (c.call.exec store c.now st.inner).2.firstSighting = some d) :
    Counted known (done ++ [c.call]) (st.call store c) := by
  obtain ⟨sink, hsink, hcool⟩ := h.cooldown
  have hmem := mem_byMac_exec store h.closed c.call c.now
  have hfirst := firstSighting_exec store h.closed c.call c.now
  have hcall : st.call store c = ⟨(c.call.exec store c.now st.inner).1,
      some (sink.raise (.newDevice d.mac d.hostname d.vendor) c.raisedAt)⟩ := by
    simp only [Watch.call, hsight, hsink]
  rw [hsight] at hfirst
  obtain ⟨hann, hnew⟩ := Option.filter_eq_some_iff.mp hfirst.symm
  have hnew : d.mac ∉ st.inner.byMac := by simpa using hnew
  have hreports := reports_of_announces hann
  -- the sink has seen only MACs that are in the registry
  have hqueue : (sink.raise (.newDevice d.mac d.hostname d.vendor) c.raisedAt).queue =
      sink.queue ++ [.newDevice d.mac d.hostname d.vendor] :=
    AlertSink.queue_raise_of_fresh (fun hin => hnew (hcool d.mac hin)) c.raisedAt
  rw [hcall]
  refine ⟨closed_exec store h.closed c.call c.now, known_call h c,
    ⟨_, rfl, fun m hm => (hmem m).mpr ?_⟩, ?_⟩
  · obtain heq | hin := AlertSink.mem_cooldown_raise hm
    · obtain rfl : m = d.mac := (Prod.mk.inj heq).2
      exact .inr hreports
    · exact .inl (hcool m hin)
  · intro m
    have hold := h.count m
    simp only [Watch.announcements, Watch.raised, hsink, Option.elim_some] at hold
    simp only [Watch.announcements, Watch.raised, Option.elim_some, hqueue, List.countP_append,
      hold]
    by_cases hm : m = d.mac
    · -- this call is its first report
      subst hm
      have hnot : d.mac ∉ hydratedMacs known ∧ firstReport d.mac done = none := by
        rw [h.mem] at hnew
        simpa using hnew
      simp [hnot.1, hnot.2, firstReport_concat, hreports, hann, Alert.newDevice]
    -- for any other MAC the call is no report
    · have hother : c.call.reports ≠ some m := by
        rw [hreports]
        exact fun heq => hm (Option.some.inj heq).symm
      have hsubject : ¬ d.mac = m := fun heq => hm heq.symm
      simp [firstReport_concat_of_ne (.inr hother), Alert.newDevice, hsubject]

theorem counted_call (store : DeviceStore) (h : Counted known done st) (c : ClockedCall) :
    Counted known (done ++ [c.call]) (st.call store c) := by
  cases hsight : (c.call.exec store c.now st.inner).2.firstSighting with
  | none => exact counted_quiet h c hsight
  | some d => exact counted_sighting h c hsight

end Calls

theorem counted_run (store : DeviceStore) {known : List Db.KnownDevice} {done : List Call}
    {st : Watch} (h : Counted known done st) (calls : List ClockedCall) :
    Counted known (done ++ calls.map ClockedCall.call) (run (Watch.call store) calls st) := by
  induction calls generalizing done st with
  | nil => simpa using h
  | cons c calls ih =>
    have hrest := ih (counted_call store h c)
    rwa [List.append_assoc, List.singleton_append] at hrest

theorem counted_reports (codec : Codec) (store : DeviceStore) {cfg : AlertConfig}
    (henabled : cfg.enabled = true) (known : List Db.KnownDevice) (now : ℕ)
    (reports : List TimedReport) :
    Counted known (allCalls codec reports)
      (run (Watch.report codec store) reports (.start store cfg known now)) := by
  have hrun : run (Watch.report codec store) reports (.start store cfg known now) =
      run (Watch.call store) (reports.flatMap (TimedReport.calls codec))
        (.start store cfg known now) :=
    List.foldl_flatMap.symm
  have hcounted := counted_run store (counted_start store henabled known now)
    (reports.flatMap (TimedReport.calls codec))
  rw [List.nil_append, List.map_flatMap] at hcounted
  simp only [map_call_calls] at hcounted
  rw [hrun]
  exact hcounted

/-- Every new device is announced once, and none if `alerts.new_device` is off, exactly when
the first report of each new device is an `observe` with the setting on, and no `observe` with
the setting off. -/
theorem announcedOnce_iff (codec : Codec) (store : DeviceStore) {cfg : AlertConfig}
    (henabled : cfg.enabled = true) (known : List Db.KnownDevice) (now : ℕ)
    (reports : List TimedReport) :
    (run (Watch.report codec store) reports (.start store cfg known now)).AnnouncedOnce cfg known ↔
      ∀ m c, m ∉ hydratedMacs known → firstReport m (allCalls codec reports) = some c →
        c.announces.isSome = cfg.newDevice := by
  have h := counted_reports codec store henabled known now reports
  generalize run (Watch.report codec store) reports (.start store cfg known now) = st at h
  constructor
  · intro honce m c hm hfirst
    have hcount := honce m ((h.mem m).mpr (.inr (by rw [hfirst]; rfl)))
    rw [h.count, hfirst] at hcount
    cases hann : c.announces <;> cases hcfg : cfg.newDevice <;> simp [hm, hann, hcfg] at hcount ⊢
  · intro hall m hmem
    rw [h.count]
    by_cases hm : m ∈ hydratedMacs known
    · simp [hm]
    · cases hfirst : firstReport m (allCalls codec reports) with
      | none =>
        rw [h.mem, hfirst] at hmem
        simp [hm] at hmem
      | some c =>
        have hann := hall m c hm hfirst
        cases hcfg : cfg.newDevice <;> simp [hm, hann, hcfg]

def kitchenSeen : TimedReport := ⟨.call (.observe (Ipv4Addr.ofOctets 192 168 1 9) kitchenMac), id⟩

def kitchenNamed : TimedReport := ⟨.call (.observeNamed kitchenMac "kitchen-pi".toList), id⟩

theorem announcedOnce_iff_example :
    (run (Watch.report (.ofTable []) plainStore) [kitchenSeen, kitchenNamed, kitchenSeen]
      (.start plainStore {} [] 0)).AnnouncedOnce {} [] := by
  have henabled : ({} : AlertConfig).enabled = true := rfl
  refine (announcedOnce_iff (.ofTable []) plainStore henabled [] 0 _).mpr ?_
  intro m c _ hfirst
  -- all three calls report the same device, the first one by its address
  have hseen : (Call.observe (Ipv4Addr.ofOctets 192 168 1 9) kitchenMac).reports =
      some kitchenMac := by decide
  have hnamed : (Call.observeNamed kitchenMac "kitchen-pi".toList).reports =
      some kitchenMac := by decide
  simp only [allCalls, kitchenSeen, kitchenNamed, Report.calls, List.flatMap_cons,
    List.flatMap_nil, List.singleton_append, List.append_nil, firstReport, List.find?_cons, hseen,
    hnamed] at hfirst
  by_cases hm : kitchenMac = m
  · subst hm
    simp only [decide_true, Option.some.injEq] at hfirst
    rw [← hfirst]
    rfl
  · simp [hm] at hfirst

/-- A device that DHCP reports first is never announced, and with `alerts.new_device` off a
device is announced all the same. -/
theorem not_announcedOnce :
    ¬ (run (Watch.report (.ofTable []) plainStore) [kitchenNamed, kitchenSeen]
      (.start plainStore {} [] 0)).AnnouncedOnce {} [] ∧
    ¬ (run (Watch.report (.ofTable []) plainStore) [kitchenSeen]
      (.start plainStore { newDevice := false } [] 0)).AnnouncedOnce { newDevice := false } [] := by
  constructor
  · intro h
    exact absurd (h kitchenMac (by decide)) (by decide)
  · intro h
    exact absurd (h kitchenMac (by decide)) (by decide)

end Netwatch.Devices
