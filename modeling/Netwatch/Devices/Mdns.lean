import Netwatch.Devices.Indexes

/-!
# Names from mDNS

`mdns_listener` hears what devices announce to the whole network. A datagram names the device it
comes from, by an A record of its own address, or else by the instance of an SRV record.

## Main definitions

- `mdnsCalls` — the reports that a message stands for
- `Heard` — the effect of some names for an address, on the registry as a whole

## Main results

- `heard_run` — what any sequence of names does
- `mdnsHeard_run` — what a sequence of datagrams does to everyone but their senders
-/

namespace Netwatch.Devices

open RustStd Hickory Interleaving

/-- A record by which the sender names itself. -/
def ownName (codec : Codec) (src : Ipv4Addr) (rec : Record) : Option Str :=
  match rec.data with
  | .a addr =>
    if addr = src then
      let name := Str.trimEndMatches '.' (codec.toAscii rec.name)
      some ((Str.stripSuffix ".local".toList name).getD name)
    else none
  | _ => none

def srv : RecordType := .other 33

/-- `name.split('.').next()` -/
def firstLabel (name : Str) : Str := name.takeWhile (· ≠ '.')

/-- The names for the sender, in the order in which they are reported. -/
def mdnsNames (codec : Codec) (src : Ipv4Addr) (msg : Message) : List Str :=
  let own := msg.answers.filterMap (ownName codec src)
  if own ≠ [] then own
  else ((msg.answers.find? fun rec => rec.recordType = srv).map fun rec =>
    firstLabel (codec.toAscii rec.name)).toList

/-- The calls for a datagram; IPv6 peers and what is no DNS message are skipped. -/
def mdnsCalls (codec : Codec) (peer : IpAddr) (datagram : Bytes) : List Call :=
  -- the kernel clips a datagram to the buffer
  match peer, codec.fromVec (datagram.take 4096) with
  | .v4 src, some msg => (mdnsNames codec src msg).map fun name => .observeNameForIp src name
  | _, _ => []

/-- A valid name that is heard for an address. -/
def Call.heard : Call → Option (Ipv4Addr × Str)
  | .observeNameForIp ip hostname => (sanitizeHostname hostname).map fun name => (ip, name)
  | _ => none

/-- Who has the address when a name is heard. -/
def Inner.HasAddress (s : Inner) (m : Str) (p : Ipv4Addr × Str) : Prop :=
  s.ipToMac.lookup p.1 = some m

instance (s : Inner) (m : Str) (p : Ipv4Addr × Str) : Decidable (s.HasAddress m p) :=
  inferInstanceAs (Decidable (_ = _))

/-- Names for an address go to the device that has it, where the first one counts and only if the
device has no name; without a device the last one is kept for later. Nothing else changes. -/
structure Heard (log : List (Ipv4Addr × Str)) (s s' : Inner) : Prop where
  ipToMac : s'.ipToMac = s.ipToMac
  known : ∀ m, m ∈ s'.byMac ↔ m ∈ s.byMac
  device : ∀ m d, s.byMac.lookup m = some d → ∃ d', s'.byMac.lookup m = some d' ∧ d'.mac = d.mac ∧
    d'.toFields = { d.toFields with
      hostname := d.hostname.or ((log.filter fun p => s.HasAddress m p).head?.map Prod.snd) }
  pending : ∀ ip, s'.pendingNames.lookup ip =
    if s.ipToMac.lookup ip = none then
      ((log.filter fun p => p.1 = ip).getLast?.map Prod.snd).or (s.pendingNames.lookup ip)
    else s.pendingNames.lookup ip

theorem heard_nil (s : Inner) : Heard [] s s := by
  refine ⟨rfl, fun m => Iff.rfl, fun m d hd => ⟨d, hd, rfl, ?_⟩, fun ip => ?_⟩
  · rw [List.filter_nil, List.head?_nil, Option.map_none, Option.or_none]
  · rw [List.filter_nil, List.getLast?_nil, Option.map_none, Option.none_or, ite_self]

theorem Heard.trans {log log' : List (Ipv4Addr × Str)} {s s' s'' : Inner} (h : Heard log s s')
    (h' : Heard log' s' s'') : Heard (log ++ log') s s'' := by
  refine ⟨h'.ipToMac.trans h.ipToMac, fun m => (h'.known m).trans (h.known m), fun m d hd => ?_,
    fun ip => ?_⟩
  · obtain ⟨d', hd', hmac, hfields⟩ := h.device m d hd
    obtain ⟨d'', hd'', hmac', hfields'⟩ := h'.device m d' hd'
    have hsame : (log'.filter fun p => s'.HasAddress m p) =
        log'.filter fun p => s.HasAddress m p := by
      refine List.filter_congr fun p _ => ?_
      rw [decide_eq_decide, Inner.HasAddress, Inner.HasAddress, h.ipToMac]
    refine ⟨d'', hd'', hmac'.trans hmac, ?_⟩
    rw [hfields', hfields, hsame, List.filter_append, List.head?_append, Option.or_assoc,
      Option.map_or]
  · rw [h'.pending, h.pending, h.ipToMac]
    split
    · rw [List.filter_append, List.getLast?_append, Option.map_or, Option.or_assoc]
    · rfl

/-- One name. -/
theorem heard_observeNameForIp (store : DeviceStore) (src : Ipv4Addr) (hostname : Str) (now : ℕ)
    {s : Inner} (hclosed : Closed s) :
    Heard (Call.observeNameForIp src hostname).heard.toList s
      (store.observeNameForIp src hostname now s).1 := by
  rw [DeviceStore.observeNameForIp, Call.heard]
  cases sanitizeHostname hostname with
  | none => exact heard_nil s
  | some name =>
    rw [Option.map_some, Option.toList_some]
    cases hsrc : s.ipToMac.lookup src with
    | none =>
      -- nobody has the address, so the name is kept for later
      refine ⟨rfl, fun m => Iff.rfl, fun m d hd => ⟨d, hd, rfl, ?_⟩, fun ip => ?_⟩
      · have hother : ¬ s.HasAddress m (src, name) := by
          rw [Inner.HasAddress, hsrc]
          exact (Option.some_ne_none m).symm
        rw [List.filter_cons_of_neg (by simpa using hother), List.filter_nil, List.head?_nil,
          Option.map_none, Option.or_none]
      · show (s.pendingNames.insert src name).lookup ip = _
        rw [HashMap.lookup_insert]
        by_cases hip : ip = src
        · rw [if_pos hip, hip, if_pos hsrc, List.filter_cons_of_pos (by simp)]
          rfl
        · have hne : ¬ src = ip := fun h => hip h.symm
          rw [if_neg hip, List.filter_cons_of_neg (by simpa using hne)]
          exact (ite_self _).symm
    | some m =>
      -- who has the address is in the registry, so nobody is added
      have hm : m ∈ s.byMac := hclosed src m hsrc
      refine ⟨rfl, fun m' => ?_, fun m' d hd => ?_, fun ip => ?_⟩
      · show m' ∈ s.byMac.insert m _ ↔ _
        rw [AList.mem_insert]
        exact ⟨fun h => h.elim (fun heq => heq ▸ hm) id, .inr⟩
      · show ∃ d', (s.byMac.insert m _).lookup m' = some d' ∧ _
        rw [HashMap.lookup_insert]
        by_cases heq : m' = m
        · subst heq
          obtain ⟨hmac, hfields⟩ := takeWriteSlot_keeps store.fingerprint now
            { d with hostname := d.hostname.or (some name) }
          have hown : s.HasAddress m' (src, name) := hsrc
          rw [if_pos rfl, hd, List.filter_cons_of_pos (by simpa using hown)]
          exact ⟨_, rfl, hmac, hfields⟩
        · have hother : ¬ s.HasAddress m' (src, name) := by
            rw [Inner.HasAddress, hsrc, Option.some.injEq]
            exact fun h => heq h.symm
          rw [if_neg heq, List.filter_cons_of_neg (by simpa using hother)]
          refine ⟨d, hd, rfl, ?_⟩
          rw [List.filter_nil, List.head?_nil, Option.map_none, Option.or_none]
      · show s.pendingNames.lookup ip = _
        by_cases hip : src = ip
        · rw [← hip, hsrc, if_neg (Option.some_ne_none m)]
        · rw [List.filter_cons_of_neg (by simpa using hip)]
          exact (ite_self _).symm

/-! ### Sequences of names -/

theorem heard_run (store : DeviceStore) {calls : List ClockedCall}
    (hnames : ∀ c ∈ calls, ∃ ip hostname, c.call = .observeNameForIp ip hostname) {st : Session}
    (hclosed : Closed st.inner) :
    Heard (calls.filterMap fun c => c.call.heard) st.inner
      (run (Session.call store) calls st).inner := by
  induction calls generalizing st with
  | nil => exact heard_nil st.inner
  | cons c calls ih =>
    obtain ⟨⟨ip, hostname, hc⟩, hnames⟩ := List.forall_mem_cons.mp hnames
    have hfirst : Heard c.call.heard.toList st.inner (Session.call store c st).inner := by
      rw [Session.call, hc]
      exact heard_observeNameForIp store ip hostname c.now hclosed
    have hkeeps : Closed (Session.call store c st).inner := closed_exec store hclosed c.call c.now
    have hall := hfirst.trans (ih hnames hkeeps)
    rw [List.filterMap_cons]
    cases hheard : c.call.heard with
    | none =>
      rw [hheard] at hall
      exact hall
    | some p =>
      rw [hheard] at hall
      exact hall

/-- The valid names that the sender of a datagram announces for itself in what is received. -/
def announcedBy (codec : Codec) (peer : IpAddr) (datagram : Bytes) : List (Ipv4Addr × Str) :=
  match peer, codec.fromVec (datagram.take 4096) with
  | .v4 src, some msg =>
    (mdnsNames codec src msg).filterMap fun name =>
      (sanitizeHostname name).map fun name => (src, name)
  | _, _ => []

def announced (codec : Codec) (datagrams : List (IpAddr × Bytes)) : List (Ipv4Addr × Str) :=
  datagrams.flatMap fun d => announcedBy codec d.1 d.2

theorem filterMap_heard_mdnsCalls (codec : Codec) (peer : IpAddr) (datagram : Bytes) :
    (mdnsCalls codec peer datagram).filterMap Call.heard = announcedBy codec peer datagram := by
  cases peer with
  | v6 a => rfl
  | v4 src =>
    unfold mdnsCalls announcedBy
    cases codec.fromVec (datagram.take 4096) with
    | none => rfl
    | some msg => exact List.filterMap_map

theorem filterMap_heard_datagrams (codec : Codec) (datagrams : List (IpAddr × Bytes)) :
    (datagrams.flatMap fun d => mdnsCalls codec d.1 d.2).filterMap Call.heard =
      announced codec datagrams := by
  induction datagrams with
  | nil => rfl
  | cons d datagrams ih =>
    rw [List.flatMap_cons, List.filterMap_append, ih, filterMap_heard_mdnsCalls, announced,
      announced, List.flatMap_cons]

theorem observeNameForIp_of_mem_mdnsCalls {codec : Codec} {peer : IpAddr} {datagram : Bytes}
    {c : Call} (h : c ∈ mdnsCalls codec peer datagram) :
    ∃ ip hostname, c = .observeNameForIp ip hostname := by
  unfold mdnsCalls at h
  split at h
  · obtain ⟨name, -, rfl⟩ := List.mem_map.mp h
    exact ⟨_, name, rfl⟩
  · cases h

theorem closed_reports (codec : Codec) (store : DeviceStore) (rows : List Db.KnownDevice)
    (now : ℕ) (reports : List TimedReport) :
    Closed (run (Session.report codec store) reports (.start store rows now)).inner :=
  run_invariant (I := fun st : Session => Closed st.inner)
    (fun _ _ h => Session.report_invariant codec store
      (I := fun st : Session => Closed st.inner)
      (fun c _ _ hst => closed_exec store hst c.call c.now) h)
    reports (known_hydrate store rows now).2

/-- Whatever the registry has been told before, and whoever sends the datagrams. -/
theorem mdnsHeard_run (codec : Codec) (store : DeviceStore) (rows : List Db.KnownDevice) (now : ℕ)
    (reports : List TimedReport) {datagrams : List (IpAddr × Bytes)} {calls : List ClockedCall}
    (hcalls : calls.map ClockedCall.call =
      datagrams.flatMap fun d => mdnsCalls codec d.1 d.2) :
    Heard (announced codec datagrams)
      (run (Session.report codec store) reports (.start store rows now)).inner
      (run (Session.call store) calls
        (run (Session.report codec store) reports (.start store rows now))).inner := by
  have hnames : ∀ c ∈ calls, ∃ ip hostname, c.call = .observeNameForIp ip hostname := by
    intro c hc
    have hmem : c.call ∈ calls.map ClockedCall.call := List.mem_map_of_mem hc
    rw [hcalls, List.mem_flatMap] at hmem
    obtain ⟨d, -, hd⟩ := hmem
    exact observeNameForIp_of_mem_mdnsCalls hd
  have hheard := heard_run store hnames (closed_reports codec store rows now reports)
  have hlog : (calls.filterMap fun c => c.call.heard) = announced codec datagrams := by
    rw [← filterMap_heard_datagrams, ← hcalls, List.filterMap_map]
    rfl
  rw [hlog] at hheard
  exact hheard

/-- The kitchen names itself, and a printer only its service. -/
def kitchenDatagrams : List (IpAddr × Bytes) :=
  [(.v4 kitchenIp, [1]), (.v4 (Ipv4Addr.ofOctets 192 168 1 20), [2]), (.v6 1, [1]),
    (.v4 kitchenIp, [3])]

def kitchenCodec : Codec :=
  let name (labels : List String) : Name := ⟨labels.map fun l => Str.utf8 l.toList⟩
  let message (answers : List Record) : Message :=
    { metadata := { id := 0, messageType := .response, opCode := .query }, answers }
  .ofTable
    [([1], message [{ name := name ["kitchen", "local"], ttl := 120, data := .a kitchenIp }]),
      ([2], message [{ name := name ["printer", "_ipp", "_tcp", "local"], ttl := 120
                       data := .other srv [] }])]

def kitchenHeard : List ClockedCall :=
  [⟨.observeNameForIp kitchenIp "kitchen".toList, 1, 1⟩,
    ⟨.observeNameForIp (Ipv4Addr.ofOctets 192 168 1 20) "printer".toList, 2, 2⟩]

theorem mdnsHeard_run_kitchen :
    Heard (announced kitchenCodec kitchenDatagrams)
      (run (Session.report kitchenCodec plainStore) kitchenStays (.start plainStore [] 0)).inner
      (run (Session.call plainStore) kitchenHeard
        (run (Session.report kitchenCodec plainStore) kitchenStays
          (.start plainStore [] 0))).inner :=
  mdnsHeard_run kitchenCodec plainStore [] 0 kitchenStays (by decide +kernel)

end Netwatch.Devices
