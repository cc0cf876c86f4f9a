import Netwatch.Netinfo
import Netwatch.Oui
import Netwatch.RustStd.Fields
import Netwatch.RustStd.Ipv4Text
import Netwatch.RustStd.Mask
import Netwatch.RustStd.Numeral
import Mathlib.Data.List.MinMax

/-!
# The files of the kernel

`netinfo.rs` finds the LAN, the neighbours and the traffic counters in the texts that the kernel
prints under `/proc/net`.

## Main definitions

- `parseDefaultRoute`, `parseLanSubnet`, `parseArpTable`, `parseIfaceCounters` — the parsers
- `Route`, `Neighbour`, `Device` — what the kernel prints a line for
- `ReadsRoutes` — what the two readings of the routing table give

## Main results

- `hexLeToIpv4_hexLe` — an address is printed in host byte order, and read back
- `readsRoutes` — the gateway, and the most specific network of every interface
- `parseArpTable_eq`, `parseIfaceCounters_eq` — the neighbours and the counters
-/

namespace RustStd.Ipv4Addr

def isMulticast (a : Ipv4Addr) : Bool := 224 ≤ a.octet 0 && a.octet 0 ≤ 239

/-- `u32::swap_bytes` -/
def swapBytes (a : Ipv4Addr) : Ipv4Addr := ofOctets (a.octet 3) (a.octet 2) (a.octet 1) (a.octet 0)

theorem octet_ofOctets {a b c d : ℕ} (ha : a < 256) (hb : b < 256) (hc : c < 256)
    (hd : d < 256) : (ofOctets a b c d).octet 0 = a ∧ (ofOctets a b c d).octet 1 = b ∧
      (ofOctets a b c d).octet 2 = c ∧ (ofOctets a b c d).octet 3 = d := by
  have hfits : ((a * 256 + b) * 256 + c) * 256 + d < 2 ^ 32 := by omega
  simp only [octet, ofOctets, BitVec.toNat_ofNat, Nat.reduceSub, Nat.reducePow, Nat.div_one]
  omega

theorem swapBytes_swapBytes (a : Ipv4Addr) : a.swapBytes.swapBytes = a := by
  obtain ⟨h0, h1, h2, h3⟩ := octet_ofOctets (a.octet_lt 3) (a.octet_lt 2) (a.octet_lt 1)
    (a.octet_lt 0)
  rw [swapBytes, swapBytes, h0, h1, h2, h3, ofOctets_octet]

end RustStd.Ipv4Addr

namespace Netwatch.Netinfo

open RustStd

/-- The kernel prints these in host byte order, so the octets come out reversed. -/
def hexLeToIpv4 (s : Str) : Option Ipv4Addr :=
  (Str.fromStrRadix 16 32 s).map fun raw => Ipv4Addr.swapBytes (BitVec.ofNat 32 raw)

/-! ### Routes -/

structure DefaultRoute where
  iface : Str
  gateway : Ipv4Addr
  deriving DecidableEq

def zeroHex : Str := "00000000".toList

/-- Destination 00000000 with a non-zero gateway. -/
def defaultOf (line : Str) : Option DefaultRoute :=
  match Str.splitWhitespace line with
  | iface :: destination :: gateway :: _ :: _ :: _ :: _ :: _ :: _ =>
    if destination ≠ zeroHex then none
    else (hexLeToIpv4 gateway).bind fun gw => if gw ≠ 0 then some ⟨iface, gw⟩ else none
  | _ => none

def parseDefaultRoute (text : Str) : Option DefaultRoute :=
  ((Str.lines text).drop 1).findSome? defaultOf

/-- `u32::count_ones` -/
def countOnes (x : BitVec 32) : ℕ := (List.range 32).countP x.getLsbD

/-- A line of the loop over the routing table. -/
def lanStep (iface : Str) (best : Option Subnet) (line : Str) : Option Subnet :=
  match Str.splitWhitespace line with
  | name :: destination :: gateway :: _ :: _ :: _ :: _ :: mask :: _ =>
    if name ≠ iface then best
    -- no gateway, non-default destination
    else if gateway ≠ zeroHex ∨ destination = zeroHex then best
    else match hexLeToIpv4 destination, hexLeToIpv4 mask with
    | some network, some mask =>
      let prefixLen := countOnes mask
      if network.isLinkLocal || network.isMulticast then best
      else if best.all fun b => b.prefixLen < prefixLen then some ⟨network, prefixLen⟩
      else best
    | _, _ => best
  | _ => best

def parseLanSubnet (text iface : Str) : Option Subnet :=
  ((Str.lines text).drop 1).foldl (lanStep iface) none

/-- A route of the kernel; the mask is that of a prefix. -/
structure Route where
  iface : Str
  destination : Ipv4Addr
  gateway : Ipv4Addr
  prefixLen : ℕ
  prefixLen_le : prefixLen ≤ 32
  flags : Str
  refCnt : Str
  use : Str
  metric : Str
  rest : List Str

def Route.mask (r : Route) : Ipv4Addr := Mask.high 32 (32 - r.prefixLen)

/-- `%08X` of the address as it lies in the memory of a little-endian host. -/
def hexLe (a : Ipv4Addr) : Str := Str.padHex 8 a.swapBytes.toNat

/-- The line of a route in `/proc/net/route`. -/
def Route.words (r : Route) : List Str :=
  r.iface :: hexLe r.destination :: hexLe r.gateway :: r.flags :: r.refCnt :: r.use :: r.metric ::
    hexLe r.mask :: r.rest

/-- The text of `/proc/net/route`, with white space as it may be. -/
def PrintsRoutes (routes : List Route) (text : Str) : Prop :=
  Str.Prints (fun r : Route => Str.Shows r.words) 1 routes text

/-- A network that is reached over the interface without a gateway. -/
def Route.OnLink (iface : Str) (r : Route) : Prop :=
  r.iface = iface ∧ r.gateway = 0 ∧ r.destination ≠ 0 ∧ r.destination.isLinkLocal = false ∧
    r.destination.isMulticast = false

instance (iface : Str) (r : Route) : Decidable (r.OnLink iface) :=
  inferInstanceAs (Decidable (_ ∧ _ ∧ _ ∧ _ ∧ _))

def Route.subnet (r : Route) : Subnet := ⟨r.destination, r.prefixLen⟩

/-- The first route by a gateway is the default route, and of the networks on an interface the
most specific is the LAN, the first one if there are several. -/
structure ReadsRoutes (routes : List Route) (text : Str) : Prop where
  gateway : parseDefaultRoute text =
    (routes.find? fun r => r.destination = 0 ∧ r.gateway ≠ 0).map fun r => ⟨r.iface, r.gateway⟩
  lan : ∀ iface, parseLanSubnet text iface =
    ((routes.filter fun r => r.OnLink iface).argmax Route.prefixLen).map Route.subnet

theorem hexLeToIpv4_hexLe (a : Ipv4Addr) : hexLeToIpv4 (hexLe a) = some a := by
  have ha : a.swapBytes.toNat < 2 ^ 32 := a.swapBytes.isLt
  rw [hexLeToIpv4, hexLe, Str.fromStrRadix_padHex (by decide) ha ha, Option.map_some,
    BitVec.ofNat_toNat, BitVec.setWidth_eq, Ipv4Addr.swapBytes_swapBytes]

theorem hexLe_inj {a b : Ipv4Addr} : hexLe a = hexLe b ↔ a = b := by
  refine ⟨fun h => ?_, congrArg _⟩
  have hread := congrArg hexLeToIpv4 h
  rw [hexLeToIpv4_hexLe, hexLeToIpv4_hexLe] at hread
  exact Option.some.inj hread

theorem hexLe_eq_zeroHex_iff {a : Ipv4Addr} : hexLe a = zeroHex ↔ a = 0 := by
  have hzero : hexLe 0 = zeroHex := by decide
  rw [← hzero, hexLe_inj]

theorem countOnes_high : ∀ k ≤ 32, countOnes (Mask.high 32 (32 - k)) = k := by decide +kernel

theorem Route.countOnes_mask (r : Route) : countOnes r.mask = r.prefixLen :=
  countOnes_high r.prefixLen r.prefixLen_le

theorem lanStep_route {r : Route} {line : Str} (h : Str.Shows r.words line) (iface : Str)
    (best : Option Subnet) :
    lanStep iface best line =
      if r.OnLink iface ∧ (best.all fun b => b.prefixLen < r.prefixLen) = true then some r.subnet
      else best := by
  rw [lanStep, Str.splitWhitespace_of_shows h, Route.words]
  simp only [ne_eq, hexLeToIpv4_hexLe, hexLe_eq_zeroHex_iff, r.countOnes_mask]
  by_cases hiface : r.iface = iface
  · rw [if_neg (not_not.mpr hiface)]
    by_cases hdirect : r.gateway = 0 ∧ r.destination ≠ 0
    · rw [if_neg (by tauto)]
      by_cases hother : (r.destination.isLinkLocal || r.destination.isMulticast) = true
      · rw [if_pos hother, if_neg]
        rintro ⟨⟨-, -, -, hlocal, hmulticast⟩, -⟩
        simp [hlocal, hmulticast] at hother
      · rw [if_neg hother]
        have honLink : r.OnLink iface := by
          rw [Bool.or_eq_true, not_or, Bool.not_eq_true, Bool.not_eq_true] at hother
          exact ⟨hiface, hdirect.1, hdirect.2, hother⟩
        simp only [honLink, true_and]
        rfl
    · rw [if_pos (by tauto), if_neg]
      exact fun hlan => hdirect ⟨hlan.1.2.1, hlan.1.2.2.1⟩
  · rw [if_pos hiface, if_neg]
    exact fun hlan => hiface hlan.1.1

/-- The loop goes through the networks on the interface and keeps the first of the most specific
ones. -/
theorem foldl_lanStep {routes : List Route} {ls : List Str}
    (h : List.Forall₂ (fun r : Route => Str.Shows r.words) routes ls) (iface : Str)
    (best : Option Route) :
    ls.foldl (lanStep iface) (best.map Route.subnet) =
      ((routes.filter fun r => r.OnLink iface).foldl
        (List.argAux fun b c => c.prefixLen < b.prefixLen) best).map Route.subnet := by
  induction h generalizing best with
  | nil => rfl
  | @cons r l routes ls hline _ ih =>
    rw [List.foldl_cons, lanStep_route hline]
    by_cases honLink : r.OnLink iface
    · rw [List.filter_cons_of_pos (by simpa using honLink), List.foldl_cons, ← ih]
      congr 1
      cases best with
      | none => simp [honLink, List.argAux]
      | some b =>
        by_cases hlonger : b.prefixLen < r.prefixLen
        · simp [honLink, hlonger, List.argAux, Route.subnet]
        · simp [hlonger, List.argAux, Route.subnet]
    · rw [List.filter_cons_of_neg (by simpa using honLink), if_neg fun hlan => honLink hlan.1, ih]

theorem defaultOf_route {r : Route} {line : Str} (h : Str.Shows r.words line) :
    defaultOf line =
      if r.destination = 0 ∧ r.gateway ≠ 0 then some ⟨r.iface, r.gateway⟩ else none := by
  rw [defaultOf, Str.splitWhitespace_of_shows h, Route.words]
  simp only [ne_eq, hexLeToIpv4_hexLe, hexLe_eq_zeroHex_iff, Option.bind_some]
  by_cases hzero : r.destination = 0
  · simp only [hzero, not_true_eq_false, if_false, true_and]
  · simp only [hzero, not_false_eq_true, if_true, false_and, if_false]

theorem findSome?_defaultOf {routes : List Route} {ls : List Str}
    (h : List.Forall₂ (fun r : Route => Str.Shows r.words) routes ls) :
    ls.findSome? defaultOf = (routes.find? fun r => r.destination = 0 ∧ r.gateway ≠ 0).map
      fun r => ⟨r.iface, r.gateway⟩ := by
  induction h with
  | nil => rfl
  | @cons r l routes ls hline _ ih =>
    rw [List.findSome?_cons, defaultOf_route hline, List.find?_cons]
    by_cases hdefault : r.destination = 0 ∧ r.gateway ≠ 0
    · rw [if_pos hdefault, decide_eq_true hdefault]
      rfl
    · rw [if_neg hdefault, decide_eq_false hdefault]
      exact ih

theorem isWhitespace_return : Str.isWhitespace '\r' = true := by decide

/-- However the columns are aligned. -/
theorem readsRoutes {routes : List Route} {text : Str} (h : PrintsRoutes routes text) :
    ReadsRoutes routes text := by
  have hlines := h.forall₂ fun r l hline => hline.of_concat isWhitespace_return
  exact ⟨findSome?_defaultOf hlines, fun iface => foldl_lanStep hlines iface none⟩

/-! ### Neighbours -/

structure ArpEntry where
  ip : Ipv4Addr
  mac : Str
  iface : Str
  deriving DecidableEq

def arpEntry (line : Str) : Option ArpEntry :=
  match Str.splitWhitespace line with
  | ip :: _ :: flags :: hwAddress :: _ :: device :: _ =>
    (IpAddr.parseIpv4 ip).bind fun ip =>
      -- the MAC of an incomplete entry is meaningless
      if flags = "0x0".toList then none
      else (Oui.normalize hwAddress).map fun mac => ⟨ip, mac, device⟩
  | _ => none

def parseArpTable (text : Str) : List ArpEntry := ((Str.lines text).drop 1).filterMap arpEntry

/-- An entry of the kernel's neighbour table. -/
structure Neighbour where
  ip : Ipv4Addr
  hwType : Str
  flags : ℕ
  hwAddress : Str
  mask : Str
  device : Str

/-- The line of a neighbour in `/proc/net/arp`. -/
def Neighbour.words (n : Neighbour) : List Str :=
  [n.ip.toText, n.hwType, '0' :: 'x' :: Nat.toDigits 16 n.flags, n.hwAddress, n.mask, n.device]

def PrintsNeighbours (neighbours : List Neighbour) (text : Str) : Prop :=
  Str.Prints (fun n : Neighbour => Str.Shows n.words) 1 neighbours text

/-- What is known of a neighbour that has answered. -/
def Neighbour.entry (n : Neighbour) : Option ArpEntry :=
  if n.flags = 0 then none else (Oui.normalize n.hwAddress).map fun mac => ⟨n.ip, mac, n.device⟩

theorem toDigits_eq_zero_iff {n : ℕ} : Nat.toDigits 16 n = ['0'] ↔ n = 0 := by
  refine ⟨fun h => ?_, fun h => h ▸ Nat.toDigits_zero 16⟩
  by_cases hn : n < 16
  · have hdigit : ∀ d < 16, Nat.digitChar d = '0' → d = 0 := by decide
    rw [Nat.toDigits_of_lt_base hn, List.singleton_inj] at h
    exact hdigit n hn h
  · have hlength := congrArg List.length h
    have hpos := @Nat.length_toDigits_pos 16 (n / 16)
    rw [Nat.toDigits_of_base_le (by decide) (not_lt.mp hn), List.length_append,
      List.length_singleton, List.length_singleton] at hlength
    omega

theorem arpEntry_neighbour {n : Neighbour} {line : Str} (h : Str.Shows n.words line) :
    arpEntry line = n.entry := by
  have hflags : ('0' :: 'x' :: Nat.toDigits 16 n.flags = "0x0".toList) ↔ n.flags = 0 := by
    rw [← toDigits_eq_zero_iff]
    exact ⟨fun h => (List.cons.inj (List.cons.inj h).2).2, fun h => by rw [h]; rfl⟩
  rw [arpEntry, Str.splitWhitespace_of_shows h, Neighbour.words]
  simp only [Ipv4Addr.parseIpv4_toText, Option.bind_some, hflags]
  rfl

theorem parseArpTable_eq {neighbours : List Neighbour} {text : Str}
    (h : PrintsNeighbours neighbours text) :
    parseArpTable text = neighbours.filterMap Neighbour.entry :=
  h.filterMap (fun _ _ hline => hline.of_concat isWhitespace_return) fun _ _ => arpEntry_neighbour

/-! ### Counters -/

structure IfaceCounters where
  iface : Str
  rxBytes : ℕ
  txBytes : ℕ
  rxPackets : ℕ
  txPackets : ℕ
  rxErrors : ℕ
  txErrors : ℕ
  rxDropped : ℕ
  txDropped : ℕ
  deriving DecidableEq

def loopback : Str := "lo".toList

/-- A line of `/proc/net/dev`, unless it is about the loopback interface. -/
def countersOf (line : Str) : Option IfaceCounters :=
  (Str.splitOnce ':' line).bind fun (name, rest) =>
    let iface := Str.trim name
    if iface = loopback then none
    else
      match (Str.splitWhitespace rest).map fun s => (Str.fromStrRadix 10 64 s).getD 0 with
      -- rx: bytes packets errs drop fifo frame compressed multicast
      -- tx: bytes packets errs drop fifo colls carrier compressed
      | rb :: rp :: re :: rd :: _ :: _ :: _ :: _ :: tb :: tp :: te :: td :: _ :: _ :: _ :: _ :: _ =>
        some ⟨iface, rb, tb, rp, tp, re, te, rd, td⟩
      | _ => none

def parseIfaceCounters (text : Str) : List IfaceCounters :=
  ((Str.lines text).drop 2).filterMap countersOf

/-- One direction of the traffic over an interface. -/
structure Traffic where
  bytes : UInt64
  packets : UInt64
  errs : UInt64
  drop : UInt64
  /-- The other four counters. -/
  others : Fin 4 → UInt64

/-- An interface of the kernel. -/
structure Device where
  iface : Str
  rx : Traffic
  tx : Traffic

def Traffic.words (t : Traffic) : List Str :=
  ([t.bytes, t.packets, t.errs, t.drop, t.others 0, t.others 1, t.others 2, t.others 3]).map
    fun n => Nat.toDigits 10 n.toNat

/-- The line of an interface in `/proc/net/dev`; no name has white space or a colon in it. -/
def Device.Shows (d : Device) (line : Str) : Prop :=
  ∃ gap rest, (∀ c ∈ gap, Str.isWhitespace c = true) ∧ Str.IsWord d.iface ∧ ':' ∉ d.iface ∧
    line = gap ++ d.iface ++ ':' :: rest ∧ Str.Shows (d.rx.words ++ d.tx.words) rest

def PrintsDevices (devices : List Device) (text : Str) : Prop :=
  Str.Prints Device.Shows 2 devices text

def Device.counters (d : Device) : IfaceCounters where
  iface := d.iface
  rxBytes := d.rx.bytes.toNat
  txBytes := d.tx.bytes.toNat
  rxPackets := d.rx.packets.toNat
  txPackets := d.tx.packets.toNat
  rxErrors := d.rx.errs.toNat
  txErrors := d.tx.errs.toNat
  rxDropped := d.rx.drop.toNat
  txDropped := d.tx.drop.toNat

theorem fromStrRadix_word (n : UInt64) :
    (Str.fromStrRadix 10 64 (Nat.toDigits 10 n.toNat)).getD 0 = n.toNat := by
  rw [Str.fromStrRadix_toDigits n.toNat_lt, Option.getD_some]

theorem countersOf_device {d : Device} {line : Str} (h : d.Shows line) :
    countersOf line = if d.iface = loopback then none else some d.counters := by
  obtain ⟨gap, rest, hgap, hword, hcolon, rfl, hrest⟩ := h
  have hsplit : Str.splitOnce ':' (gap ++ d.iface ++ ':' :: rest) =
      some (gap ++ d.iface, rest) := by
    refine Str.splitOnce_eq_some_iff.mpr ⟨rfl, fun hmem => ?_⟩
    obtain hin | hin := List.mem_append.mp hmem
    · exact absurd (hgap ':' hin) (by decide)
    · exact hcolon hin
  have hname : Str.trim (gap ++ d.iface) = d.iface := by
    rw [Str.trim_prepend_of_forall hgap, Str.trim_eq_self_of_forall hword.2]
  rw [countersOf, hsplit, Option.bind_some]
  dsimp only
  rw [hname, Str.splitWhitespace_of_shows hrest]
  simp only [Traffic.words, List.map_cons, List.map_nil, List.cons_append, List.nil_append,
    fromStrRadix_word]
  rfl

theorem Device.Shows.of_return {d : Device} {line : Str} (h : d.Shows (line ++ ['\r'])) :
    d.Shows line := by
  obtain ⟨gap, rest, hgap, hword, hcolon, heq, hrest⟩ := h
  obtain rfl | ⟨rest, c, rfl⟩ := List.eq_nil_or_concat rest
  · obtain ⟨-, hlast⟩ := List.append_inj' heq rfl
    exact absurd hlast (by decide)
  · rw [List.concat_eq_append] at heq hrest
    rw [← List.cons_append, ← List.append_assoc] at heq
    obtain ⟨rfl, hlast⟩ := List.append_inj' heq rfl
    obtain rfl := List.singleton_inj.mp hlast
    exact ⟨gap, rest, hgap, hword, hcolon, rfl, hrest.of_concat isWhitespace_return⟩

theorem parseIfaceCounters_eq {devices : List Device} {text : Str}
    (h : PrintsDevices devices text) :
    parseIfaceCounters text =
      (devices.filter fun d => d.iface ≠ loopback).map Device.counters := by
  refine (h.filterMap (fun _ _ => Device.Shows.of_return) fun _ _ => countersOf_device).trans ?_
  rw [← List.filterMap_eq_map, List.filterMap_filter]
  refine List.filterMap_congr fun d _ => ?_
  by_cases hlo : d.iface = loopback
  · simp [hlo]
  · simp [hlo]

end Netwatch.Netinfo
