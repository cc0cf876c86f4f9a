import Netwatch.Devices.Indexes
import Netwatch.Netinfo.Hosts
import Netwatch.Netinfo.Proc

/-!
# Discovery

At startup `main` finds the LAN in the routing table, and from then on `arp_poller` reports the
neighbours on it to the registry. The other discovery tasks report in between.

## Main definitions

- `detect` — the interface and the network that are taken for the LAN
- `arpCalls` — one poll of the neighbour table
- `networkOf`, `sightings` — what the kernel knows, in terms of its routes and neighbours
- `FollowsKernel` — whose addresses the registry has

## Main results

- `lookup_run` — the last sighting of an address decides who has it
- `followsKernel_run` — across every interleaving, from the texts of the kernel to the registry
-/

namespace Netwatch.Devices

open RustStd Hickory Interleaving Netinfo

/-- What `main` has found out about the network. -/
structure Network where
  route : Option DefaultRoute
  subnet : Option Subnet

/-- The routing table is read once for the gateway, and again for the LAN. -/
def detect (configured : Option Str) (text text' : Option Str) : Except SubnetError Network :=
  let route := text.bind parseDefaultRoute
  match configured with
  | some s => (Subnet.parseCidr s).map fun subnet => ⟨route, some subnet⟩
  | none => .ok ⟨route, route.bind fun r => text'.bind fun text => parseLanSubnet text r.iface⟩

/-- Not a peer of a VPN or of a Docker bridge. -/
def Network.Wants (net : Network) (e : ArpEntry) : Prop :=
  (∀ r ∈ net.route, e.iface = r.iface) ∧ ∀ s ∈ net.subnet, s.contains e.ip = true

instance (net : Network) (e : ArpEntry) : Decidable (net.Wants e) :=
  inferInstanceAs (Decidable (_ ∧ _))

/-- What one poll reports; nothing, if the table cannot be read. -/
def arpCalls (net : Network) (text : Option Str) : List Call :=
  match text with
  | none => []
  | some text => ((parseArpTable text).filter fun e => net.Wants e).map fun e => .observe e.ip e.mac

/-- Only `arp_poller` observes. -/
def Call.Observes : Call → Prop
  | .observe _ _ => True
  | _ => False

instance : DecidablePred Call.Observes
  | .observe _ _ => inferInstanceAs (Decidable True)
  | .observeNamed _ _ | .observeNameForIp _ _ | .touchIp _ => inferInstanceAs (Decidable False)

/-! ### In terms of the kernel -/

/-- The interface of the default route, and the network that is configured or else on it. -/
def networkOf (configured : Option Subnet) (routes : List Route) : Network :=
  let route := (routes.find? fun r => r.destination = 0 ∧ r.gateway ≠ 0).map fun r =>
    ⟨r.iface, r.gateway⟩
  { route
    subnet := configured.or (route.bind fun r =>
      ((routes.filter fun r' => r'.OnLink r.iface).argmax Route.prefixLen).map Route.subnet) }

/-- The neighbours on the LAN that have answered, poll by poll. -/
def sightings (net : Network) (polls : List (List Neighbour)) : List (Ipv4Addr × Str) :=
  (polls.flatten.filterMap fun n => n.entry.filter fun e => net.Wants e).map fun e => (e.ip, e.mac)

/-- Who was sighted with an address most recently. -/
def lastSighted (sighted : List (Ipv4Addr × Str)) (ip : Ipv4Addr) : Option Str :=
  (sighted.reverse.find? fun p => p.1 = ip).map Prod.snd

/-- Addresses are those of the neighbours on the LAN, and a device is known if it is such a
neighbour, has named itself over DHCP, or was known before. -/
structure FollowsKernel (sighted : List (Ipv4Addr × Str)) (calls : List ClockedCall)
    (start s : Inner) : Prop where
  address : ∀ ip, s.ipToMac.lookup ip = (lastSighted sighted ip).or (start.ipToMac.lookup ip)
  known : ∀ m, m ∈ s.byMac ↔ m ∈ start.byMac ∨ (∃ ip, (ip, m) ∈ sighted) ∨
    ∃ c ∈ calls, ¬ c.call.Observes ∧ c.call.reports = some m

/-! ### Sequences of calls -/

variable (store : DeviceStore)

theorem lastSighted_concat (sighted : List (Ipv4Addr × Str)) (p : Ipv4Addr × Str) (ip : Ipv4Addr) :
    lastSighted (sighted ++ [p]) ip = if p.1 = ip then some p.2 else lastSighted sighted ip := by
  rw [lastSighted, List.reverse_concat, List.find?_cons, lastSighted]
  by_cases h : p.1 = ip
  · rw [decide_eq_true h, if_pos h]
    rfl
  · rw [decide_eq_false h, if_neg h]

/-- The sightings among the calls. -/
def sightedBy (calls : List ClockedCall) : List (Ipv4Addr × Str) :=
  calls.filterMap fun c => c.call.sighted

theorem sightedBy_concat (calls : List ClockedCall) (c : ClockedCall) :
    sightedBy (calls ++ [c]) = sightedBy calls ++ c.call.sighted.toList := by
  rw [sightedBy, List.filterMap_append, List.filterMap_cons]
  cases c.call.sighted <;> rfl

theorem inner_run_concat (calls : List ClockedCall) (c : ClockedCall) (st : Session) :
    (run (Session.call store) (calls ++ [c]) st).inner =
      (c.call.exec store c.now (run (Session.call store) calls st).inner).1 := by
  rw [run_append]
  rfl

/-- The last sighting of an address decides who has it. -/
theorem lookup_run (calls : List ClockedCall) (st : Session) (ip : Ipv4Addr) :
    (run (Session.call store) calls st).inner.ipToMac.lookup ip =
      (lastSighted (sightedBy calls) ip).or (st.inner.ipToMac.lookup ip) := by
  induction calls using List.reverseRecOn with
  | nil => rfl
  | append_singleton calls c ih =>
    rw [inner_run_concat, sightedBy_concat]
    cases hc : c.call.sighted with
    | none =>
      rw [ipToMac_exec_of_not_sighted store hc, ih, Option.toList_none, List.append_nil]
    | some p =>
      obtain ⟨x, m⟩ := p
      refine (congrFun (exec_sighted store hc c.now).1 ip).trans ?_
      rw [Option.toList_some, lastSighted_concat, Lookup.update]
      by_cases hip : ip = x
      · rw [if_pos hip, if_pos hip.symm]
        rfl
      · rw [if_neg hip, if_neg fun heq => hip heq.symm]
        exact ih

theorem mem_byMac_run {st : Session} (hclosed : Closed st.inner) (calls : List ClockedCall)
    (m : Str) :
    m ∈ (run (Session.call store) calls st).inner.byMac ↔
      m ∈ st.inner.byMac ∨ ∃ c ∈ calls, c.call.reports = some m := by
  have hkeeps : ∀ calls : List ClockedCall, Closed (run (Session.call store) calls st).inner :=
    fun calls => run_invariant (I := fun st : Session => Closed st.inner)
      (fun c st h => closed_exec store h c.call c.now) calls hclosed
  induction calls using List.reverseRecOn with
  | nil => simp
  | append_singleton calls c ih =>
    rw [inner_run_concat]
    refine (mem_byMac_exec store (hkeeps calls) c.call c.now m).trans ?_
    refine (or_congr_left ih).trans ?_
    simp only [List.mem_append, List.mem_singleton, or_and_right, exists_or, exists_eq_left,
      or_assoc]

/-- What an observation reports, it has sighted. -/
theorem reports_iff_of_observes {c : Call} (h : c.Observes) {m : Str} :
    c.reports = some m ↔ ∃ ip, c.sighted = some (ip, m) := by
  cases c with
  | observe ip mac =>
    rw [Call.reports, Call.sighted]
    simp only [Option.map_eq_some_iff, Prod.mk.injEq]
    constructor
    · intro hmac
      exact ⟨ip, m, hmac, rfl, rfl⟩
    · rintro ⟨ip', m', hmac, -, rfl⟩
      exact hmac
  | observeNamed mac hostname => exact h.elim
  | observeNameForIp ip hostname => exact h.elim
  | touchIp ip => exact h.elim

theorem sighted_of_not_observes {c : Call} (h : ¬ c.Observes) : c.sighted = none := by
  cases c with
  | observe ip mac => exact absurd trivial h
  | observeNamed mac hostname => rfl
  | observeNameForIp ip hostname => rfl
  | touchIp ip => rfl

theorem sightedBy_eq (calls : List ClockedCall) :
    sightedBy calls =
      ((calls.map ClockedCall.call).filter Call.Observes).filterMap Call.sighted := by
  rw [List.filterMap_filter, List.filterMap_map, sightedBy]
  refine List.filterMap_congr fun c _ => ?_
  by_cases hc : c.call.Observes
  · simp [hc]
  · simp [hc, sighted_of_not_observes hc]

theorem followsKernel {st : Session} (hclosed : Closed st.inner) (calls : List ClockedCall) :
    FollowsKernel (sightedBy calls) calls st.inner (run (Session.call store) calls st).inner := by
  refine ⟨lookup_run store calls st, fun m => ?_⟩
  rw [mem_byMac_run store hclosed]
  refine or_congr_right ⟨?_, ?_⟩
  · rintro ⟨c, hc, hreports⟩
    by_cases hobserves : c.call.Observes
    · obtain ⟨ip, hsighted⟩ := (reports_iff_of_observes hobserves).mp hreports
      exact .inl ⟨ip, List.mem_filterMap.mpr ⟨c, hc, hsighted⟩⟩
    · exact .inr ⟨c, hc, hobserves, hreports⟩
  · rintro (⟨ip, hmem⟩ | ⟨c, hc, -, hreports⟩)
    · obtain ⟨c, hc, hsighted⟩ := List.mem_filterMap.mp hmem
      have hobserves : c.call.Observes := by
        by_contra hnot
        rw [sighted_of_not_observes hnot] at hsighted
        cases hsighted
      exact ⟨c, hc, (reports_iff_of_observes hobserves).mpr ⟨ip, hsighted⟩⟩
    · exact ⟨c, hc, hreports⟩

/-! ### What the tasks read -/

theorem normalize_of_entry {n : Neighbour} {e : ArpEntry} (h : n.entry = some e) :
    Oui.normalize e.mac = some e.mac := by
  rw [Neighbour.entry, Option.ite_none_left_eq_some] at h
  obtain ⟨mac, hmac, rfl⟩ := Option.map_eq_some_iff.mp h.2
  exact Oui.normalize_idem hmac

theorem filterMap_sighted_arpCalls {neighbours : List Neighbour} {text : Str}
    (h : PrintsNeighbours neighbours text) (net : Network) :
    (arpCalls net (some text)).filterMap Call.sighted = sightings net [neighbours] := by
  rw [arpCalls, parseArpTable_eq h, List.filter_filterMap, List.filterMap_map, sightings,
    List.flatten_singleton, ← List.filterMap_eq_map]
  refine List.filterMap_congr fun e he => ?_
  obtain ⟨n, -, hentry⟩ := List.mem_filterMap.mp he
  have hmac := normalize_of_entry (Option.filter_eq_some_iff.mp hentry).1
  show (Oui.normalize e.mac).map (fun m => (e.ip, m)) = some (e.ip, e.mac)
  rw [hmac, Option.map_some]

theorem filterMap_sighted_polls {polls : List (List Neighbour × Str)}
    (h : ∀ p ∈ polls, PrintsNeighbours p.1 p.2) (net : Network) :
    (polls.flatMap fun p => arpCalls net (some p.2)).filterMap Call.sighted =
      sightings net (polls.map Prod.fst) := by
  induction polls with
  | nil => rfl
  | cons p polls ih =>
    obtain ⟨hp, hpolls⟩ := List.forall_mem_cons.mp h
    rw [List.flatMap_cons, List.filterMap_append, filterMap_sighted_arpCalls hp, ih hpolls,
      sightings, sightings, sightings, ← List.map_append, ← List.filterMap_append,
      List.flatten_singleton]
    rfl

theorem detect_none {routes : List Route} {text text' : Str} (h : PrintsRoutes routes text)
    (h' : PrintsRoutes routes text') :
    detect none (some text) (some text') = .ok (networkOf none routes) := by
  rw [detect, Option.bind_some, (readsRoutes h).gateway]
  simp only [Option.bind_some, (readsRoutes h').lan]
  rfl

/-- The texts of the kernel lead to the network of its routes. -/
theorem detect_eq {configured : Option Str} {routes : List Route} {text text' : Str}
    (h : PrintsRoutes routes text) (h' : PrintsRoutes routes text') {net : Network}
    (hnet : detect configured (some text) (some text') = .ok net) :
    net = networkOf (configured.bind fun s => (Subnet.parseCidr s).toOption) routes := by
  cases configured with
  | none =>
    rw [detect_none h h'] at hnet
    exact (Except.ok.inj hnet).symm
  | some s =>
    rw [detect, Option.bind_some, (readsRoutes h).gateway] at hnet
    cases hparse : Subnet.parseCidr s with
    | error e =>
      rw [hparse] at hnet
      cases hnet
    | ok subnet =>
      rw [hparse] at hnet
      rw [Option.bind_some, hparse]
      exact (Except.ok.inj hnet).symm

/-- Whatever else is reported in between, and however the files are aligned. -/
theorem followsKernel_run {configured : Option Str} {routes : List Route} {text text' : Str}
    (hroutes : PrintsRoutes routes text) (hroutes' : PrintsRoutes routes text') {net : Network}
    (hnet : detect configured (some text) (some text') = .ok net)
    {polls : List (List Neighbour × Str)} (hpolls : ∀ p ∈ polls, PrintsNeighbours p.1 p.2)
    {calls : List ClockedCall}
    (hcalls : (calls.map ClockedCall.call).filter Call.Observes =
      polls.flatMap fun p => arpCalls net (some p.2))
    (rows : List Db.KnownDevice) (now : ℕ) :
    FollowsKernel
      (sightings (networkOf (configured.bind fun s => (Subnet.parseCidr s).toOption) routes)
        (polls.map Prod.fst))
      calls (Session.start store rows now).inner
      (run (Session.call store) calls (Session.start store rows now)).inner := by
  have hclosed : Closed (Session.start store rows now).inner := (known_hydrate store rows now).2
  have hsighted : sightedBy calls = sightings net (polls.map Prod.fst) := by
    rw [sightedBy_eq, hcalls, filterMap_sighted_polls hpolls]
  rw [← detect_eq hroutes hroutes' hnet, ← hsighted]
  exact followsKernel store hclosed calls

/-! ### A network at home -/

def routerIp : Ipv4Addr := Ipv4Addr.ofOctets 192 168 1 1

def homeRoute (iface : String) (destination gateway : Ipv4Addr)
    (prefixLen : { n : ℕ // n ≤ 32 }) : Route where
  iface := iface.toList
  destination
  gateway
  prefixLen := prefixLen.1
  prefixLen_le := prefixLen.2
  flags := "0001".toList
  refCnt := "0".toList
  use := "0".toList
  metric := "202".toList
  rest := ["0".toList, "0".toList, "0".toList]

def homeRoutes : List Route :=
  [homeRoute "eth0" 0 routerIp ⟨0, by decide⟩,
    homeRoute "eth0" (Ipv4Addr.ofOctets 192 168 1 0) 0 ⟨24, by decide⟩,
    homeRoute "wlan0" (Ipv4Addr.ofOctets 169 254 0 0) 0 ⟨16, by decide⟩]

def routeHeading : Str := "Iface\tDestination".toList

def routeLines : List Str :=
  ["eth0\t00000000\t0101A8C0\t0001\t0\t0\t202\t00000000\t0\t0\t0".toList,
    "eth0\t0001A8C0\t00000000\t0001\t0\t0\t202\t00FFFFFF\t0\t0\t0   ".toList,
    "wlan0\t0000FEA9\t00000000\t0001\t0\t0\t202\t0000FFFF\t0\t0\t0".toList]

theorem prints_homeRoutes : PrintsRoutes homeRoutes (Str.ofLines (routeHeading :: routeLines)) := by
  refine ⟨[routeHeading], routeLines, rfl, by decide +kernel, rfl, ?_⟩
  refine .cons ?_ (.cons ?_ (.cons ?_ .nil))
  · exact Str.shows_iff.mpr (by decide +kernel)
  · exact Str.shows_iff.mpr (by decide +kernel)
  · exact Str.shows_iff.mpr (by decide +kernel)

def arpLine (ip : Ipv4Addr) (flags : ℕ) (device : String) : Neighbour where
  ip
  hwType := "0x1".toList
  flags
  hwAddress := kitchenMac
  mask := "*".toList
  device := device.toList

/-- One device is on the LAN and has a tunnel as well; another one has not answered. -/
def homeNeighbours : List Neighbour :=
  [arpLine kitchenIp 2 "eth0", arpLine (Ipv4Addr.ofOctets 10 8 0 2) 2 "tun0",
    arpLine (Ipv4Addr.ofOctets 192 168 1 99) 0 "eth0"]

def arpHeading : Str := "IP address".toList

def arpLines : List Str :=
  ["192.168.1.9  0x1  0x2  b8:27:eb:11:22:33  *  eth0".toList,
    "10.8.0.2     0x1  0x2  b8:27:eb:11:22:33  *  tun0".toList,
    "192.168.1.99 0x1  0x0  b8:27:eb:11:22:33  *  eth0".toList]

theorem prints_homeNeighbours :
    PrintsNeighbours homeNeighbours (Str.ofLines (arpHeading :: arpLines)) := by
  refine ⟨[arpHeading], arpLines, rfl, by decide +kernel, rfl, ?_⟩
  refine .cons ?_ (.cons ?_ (.cons ?_ .nil))
  · exact Str.shows_iff.mpr (by decide +kernel)
  · exact Str.shows_iff.mpr (by decide +kernel)
  · exact Str.shows_iff.mpr (by decide +kernel)

/-- Between two polls a device names itself. -/
def homeCalls : List ClockedCall :=
  [⟨.observe kitchenIp kitchenMac, 0, 0⟩, ⟨.observeNamed kitchenMac "kitchen".toList, 1, 1⟩,
    ⟨.observe kitchenIp kitchenMac, 2, 2⟩]

theorem followsKernel_run_home :
    FollowsKernel (sightings (networkOf none homeRoutes) [homeNeighbours, homeNeighbours])
      homeCalls (Session.start plainStore [] 0).inner
      (run (Session.call plainStore) homeCalls (Session.start plainStore [] 0)).inner := by
  have hpolls : ∀ p ∈ List.replicate 2 (homeNeighbours, Str.ofLines (arpHeading :: arpLines)),
      PrintsNeighbours p.1 p.2 := by
    intro p hp
    rw [List.eq_of_mem_replicate hp]
    exact prints_homeNeighbours
  exact followsKernel_run plainStore prints_homeRoutes prints_homeRoutes
    (detect_none prints_homeRoutes prints_homeRoutes) hpolls (by decide +kernel) [] 0

end Netwatch.Devices
