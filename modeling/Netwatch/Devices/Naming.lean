import Netwatch.Devices.Persisted
import Netwatch.Devices.Reports

/-!
# Names that stay

A name a device declares itself comes by `observe_named`. Names inferred from DNS belong to an
address: `observe_name_for_ip` gives one only to a device without a name, or parks it until a
device shows up at the address.

## Main definitions

- `Call.adopts` — the parked name a sighting hands over
- `NamesKept` — only its own declaration changes the name of a device
- `Report.Respects` — no other name waits for a device that has one

## Main results

- `nameOf_exec` — what a call makes of a name
- `namesKept_iff` — names are kept exactly in runs that respect them
-/

namespace Netwatch.Devices

open RustStd Hickory Interleaving

def Inner.nameOf (s : Inner) (m : Str) : Option Str :=
  (s.byMac.lookup m).bind fun d => d.hostname

/-- The MAC whose name a report declares. -/
def Report.declares : Report → Option Str
  | .call (.observeNamed mac _) => Oui.normalize mac
  | _ => none

/-- Once a device has a name, only its own declaration changes it, whatever happens in
between. -/
def NamesKept (codec : Codec) (store : DeviceStore) (st : Session) (reports : List TimedReport) :
    Prop :=
  ∀ before between after, reports = before ++ between ++ after →
    ∀ m h, (run (Session.report codec store) before st).inner.nameOf m = some h →
      (∀ r ∈ between, r.report.declares ≠ some m) →
      (run (Session.report codec store) (before ++ between) st).inner.nameOf m = some h

/-- The name parked for the address at which a device is sighted. -/
def Call.adopts (s : Inner) (m : Str) : Call → Option Str
  | .observe ip mac => if Oui.normalize mac = some m then s.pendingNames.lookup ip else none
  | _ => none

def Report.adopts (s : Inner) (m : Str) : Report → Option Str
  | .call c => c.adopts s m
  | .learnFromDns _ => none

/-- What a sighting hands over to a device with a name is that name. -/
def Report.Respects (r : Report) (s : Inner) : Prop :=
  ∀ m name h, r.adopts s m = some name → s.nameOf m = some h → name = h

/-- Only a sighting hands a name over, and a sighting declares none. -/
theorem declares_ne_of_adopts {r : Report} {s : Inner} {m name : Str}
    (h : r.adopts s m = some name) : r.declares ≠ some m := by
  cases r with
  | learnFromDns msg => cases h
  | call c =>
    cases c with
    | observe ip mac => exact fun hdecl => by cases hdecl
    | observeNamed mac hostname => cases h
    | observeNameForIp ip hostname => cases h
    | touchIp ip => cases h

/-! ### One call -/

theorem hostname_getD (s : Inner) (m : Str) {init : Device} (hinit : init.hostname = none) :
    ((s.byMac.lookup m).getD init).hostname = s.nameOf m := by
  rw [Inner.nameOf]
  cases s.byMac.lookup m with
  | none => exact hinit
  | some d => rfl

section Calls

variable {s : Inner} {m h : Str} (hname : s.nameOf m = some h) (store : DeviceStore) (now : ℕ)

include hname

/-- The parked name comes first. -/
theorem nameOf_observe (ip : Ipv4Addr) (mac : Str) :
    (store.observe ip mac now s).1.nameOf m =
      some (((Call.observe ip mac).adopts s m).getD h) := by
  rw [DeviceStore.observe, Call.adopts]
  cases hmac : Oui.normalize mac with
  | none => simpa using hname
  | some m' =>
    refine (HashMap.bind_lookup_insert s.byMac m' m _ _).trans ?_
    by_cases hm : m = m'
    · subst hm
      rw [if_pos rfl, if_pos rfl, (takeWriteSlot_keeps store.fingerprint now _).2]
      show (s.pendingNames.lookup ip).or ((s.byMac.lookup m).getD { mac := m }).hostname = _
      rw [hostname_getD s m rfl, hname]
      cases s.pendingNames.lookup ip <;> rfl
    · have hne : ¬ some m' = some m := fun heq => hm (Option.some.inj heq).symm
      rw [if_neg hm, if_neg hne, Option.getD_none]
      exact hname

theorem nameOf_observeNamed {mac : Str} (hother : Oui.normalize mac ≠ some m) (hostname : Str) :
    (store.observeNamed mac hostname now s).1.nameOf m = some h := by
  rw [DeviceStore.observeNamed]
  split
  · next m' name hmac _ =>
    have hm : m ≠ m' := fun heq => hother (heq ▸ hmac)
    exact (HashMap.bind_lookup_insert s.byMac m' m _ _).trans ((if_neg hm).trans hname)
  · exact hname

/-- A name that is there comes first. -/
theorem nameOf_observeNameForIp (ip : Ipv4Addr) (hostname : Str) :
    (store.observeNameForIp ip hostname now s).1.nameOf m = some h := by
  rw [DeviceStore.observeNameForIp]
  cases sanitizeHostname hostname with
  | none => exact hname
  | some name =>
    cases s.ipToMac.lookup ip with
    | none => exact hname
    | some m' =>
      refine (HashMap.bind_lookup_insert s.byMac m' m _ _).trans ?_
      by_cases hm : m = m'
      · subst hm
        rw [if_pos rfl, (takeWriteSlot_keeps store.fingerprint now _).2]
        show ((s.byMac.lookup m).getD { mac := m, ip := some ip }).hostname.or (some name) = _
        rw [hostname_getD s m rfl, hname]
        rfl
      · rw [if_neg hm]
        exact hname

theorem nameOf_touchIp (ip : IpAddr) : (touchIp ip now s).1.nameOf m = some h := by
  obtain hidle | ⟨-, m', d, -, hd, hbeat⟩ := touchIp_idle_or_beat ip now s
  · rw [hidle]
    exact hname
  · rw [hbeat]
    refine (HashMap.bind_lookup_insert s.byMac m' m _ _).trans ?_
    split
    · next hm =>
      rw [hm, Inner.nameOf, hd] at hname
      exact hname
    · exact hname

/-- A name stays, or the parked one takes its place. -/
theorem nameOf_exec {c : Call} (hdeclares : (Report.call c).declares ≠ some m) :
    (c.exec store now s).1.nameOf m = some ((c.adopts s m).getD h) := by
  cases c with
  | observe ip mac => exact nameOf_observe hname store now ip mac
  | observeNamed mac hostname => exact nameOf_observeNamed hname store now hdeclares hostname
  | observeNameForIp ip hostname => exact nameOf_observeNameForIp hname store now ip hostname
  | touchIp ip => exact nameOf_touchIp hname now ip

end Calls

theorem nameOf_report {st : Session} {m h : Str} (hname : st.inner.nameOf m = some h)
    (codec : Codec) (store : DeviceStore) {r : TimedReport}
    (hdeclares : r.report.declares ≠ some m) :
    (st.report codec store r).inner.nameOf m = some ((r.report.adopts st.inner m).getD h) := by
  cases hr : r.report with
  | call c =>
    rw [hr] at hdeclares
    rw [Session.report_of_call codec store hr]
    exact nameOf_exec hname store _ hdeclares
  | learnFromDns msg =>
    refine Session.report_invariant (I := fun st => st.inner.nameOf m = some h) codec store ?_ hname
    intro c hc st hst
    obtain ⟨ip, name, heq⟩ := calls_of_learnFromDns codec hr hc
    show (c.call.exec store c.now st.inner).1.nameOf m = some h
    rw [heq]
    refine nameOf_exec hst store c.now fun hdecl => ?_
    cases hdecl

/-! ### Every run -/

theorem nameOf_run {st : Session} {m h : Str} (hname : st.inner.nameOf m = some h) (codec : Codec)
    (store : DeviceStore) {reports : List TimedReport}
    (hrun : Along (Session.report codec store) (fun r st => r.report.Respects st.inner) reports st)
    (hdeclares : ∀ r ∈ reports, r.report.declares ≠ some m) :
    (run (Session.report codec store) reports st).inner.nameOf m = some h := by
  induction reports generalizing st with
  | nil => exact hname
  | cons r reports ih =>
    refine ih ?_ hrun.2 fun r' hr' => hdeclares r' (List.mem_cons_of_mem r hr')
    rw [nameOf_report hname codec store (hdeclares r List.mem_cons_self)]
    cases hadopts : r.report.adopts st.inner m with
    | none => rfl
    | some name => rw [Option.getD_some, hrun.1 m name h hadopts hname]

/-- Names are kept in a run exactly if no device with a name is sighted where another name
waits. -/
theorem namesKept_iff (codec : Codec) (store : DeviceStore) (rows : List Db.KnownDevice) (now : ℕ)
    (reports : List TimedReport) :
    NamesKept codec store (.start store rows now) reports ↔
      Along (Session.report codec store) (fun r st => r.report.Respects st.inner) reports
        (.start store rows now) := by
  constructor
  · intro hkept
    rw [along_iff_forall_split]
    intro before r after hsplit m name h hadopts hname
    -- the report alone, between the reports before and after it
    have hquiet : r.report.declares ≠ some m := declares_ne_of_adopts hadopts
    have hdeclares : ∀ r' ∈ [r], r'.report.declares ≠ some m := by
      intro r' hr'
      rwa [List.mem_singleton.mp hr']
    have hstill := hkept before [r] after (by simp [hsplit]) m h hname hdeclares
    rw [run_append] at hstill
    have hnow := nameOf_report hname codec store hquiet
    rw [hadopts, Option.getD_some] at hnow
    exact Option.some.inj (hnow.symm.trans hstill)
  · intro hrun before between after hsplit m h hname hdeclares
    rw [run_append]
    rw [hsplit, along_append, along_append] at hrun
    exact nameOf_run hname codec store hrun.1.2 hdeclares

def kitchenRenamed : List TimedReport :=
  [⟨.call (.observeNamed kitchenMac "kitchen-pi".toList), id⟩,
    ⟨.call (.observeNameForIp (Ipv4Addr.ofOctets 192 168 1 10) "host10".toList), id⟩,
    ⟨.call (.observe (Ipv4Addr.ofOctets 192 168 1 10) kitchenMac), id⟩]

/-- The name inferred for an address replaces the name that the device has declared, once the
device is sighted there. -/
theorem not_namesKept :
    (run (Session.report (.ofTable []) plainStore) kitchenRenamed
      (.start plainStore [] 0)).inner.nameOf kitchenMac = some "host10".toList ∧
    ¬ NamesKept (.ofTable []) plainStore (.start plainStore [] 0) kitchenRenamed := by
  refine ⟨by decide, fun hkept => ?_⟩
  have hstill := hkept (kitchenRenamed.take 1) (kitchenRenamed.drop 1) [] rfl kitchenMac
    "kitchen-pi".toList (by decide) (by decide)
  exact absurd hstill (by decide)

end Netwatch.Devices
