import Netwatch.Dns.AclDenotation
import Netwatch.Netinfo

/-!
# The hosts of the LAN

`netmask`, `contains` and `hosts` of `Subnet`. Membership is a test with a mask, the enumeration
counts up from the masked network address; both are over the same range of addresses, and the
mask is written a second time in the access list.

## Main definitions

- `Subnet.hosts` — what a sweep of the LAN asks
- `Subnet.hostsChecked` — the same, with checked arithmetic
- `SweepsHosts` — the sweep asks the members, except for the first and the last one

## Main results

- `mem_hosts_iff` — the enumeration is over the members
- `sweepsHosts` — every subnet that is swept is swept right, and membership is `v4_in`
-/

namespace Netwatch

open RustStd

namespace Subnet

def netmask (s : Subnet) : BitVec 32 :=
  if s.prefixLen = 0 then 0 else Mask.high 32 (32 - s.prefixLen)

def contains (s : Subnet) (addr : Ipv4Addr) : Bool :=
  addr &&& s.netmask == s.network &&& s.netmask

/-- Prefixes wider than /16 are not swept. -/
def hosts (s : Subnet) : List Ipv4Addr :=
  if s.prefixLen < 16 ∨ 30 < s.prefixLen then []
  else
    let base := s.network &&& s.netmask
    let count := (1 : BitVec 32) <<< (32 - s.prefixLen)
    -- `1..count.saturating_sub(1)`
    (List.range' 1 (count.toNat - 1 - 1)).map fun i => base + BitVec.ofNat 32 i

/-! ### Checked arithmetic -/

def netmaskChecked (s : Subnet) : Option (BitVec 32) :=
  if s.prefixLen = 0 then some 0 else Mask.checkedHigh 32 s.prefixLen

/-- `1u32 << (32 - prefixLen)` -/
def countChecked (s : Subnet) : Option (BitVec 32) :=
  if s.prefixLen ≤ 32 ∧ 32 - s.prefixLen < 32 then some ((1 : BitVec 32) <<< (32 - s.prefixLen))
  else none

/-- `u32::checked_add` -/
def addChecked (a b : BitVec 32) : Option (BitVec 32) :=
  if a.toNat + b.toNat < 2 ^ 32 then some (a + b) else none

/-- Nothing if a subtraction, a shift or a sum overflows. -/
def hostsChecked (s : Subnet) : Option (List Ipv4Addr) :=
  if s.prefixLen < 16 ∨ 30 < s.prefixLen then some []
  else
    s.netmaskChecked.bind fun mask =>
      s.countChecked.bind fun count =>
        (List.range' 1 (count.toNat - 1 - 1)).mapM fun i =>
          addChecked (s.network &&& mask) (BitVec.ofNat 32 i)

/-! ### What a sweep should ask -/

def IsLowest (s : Subnet) (a : Ipv4Addr) : Prop :=
  s.contains a = true ∧ ∀ b, s.contains b = true → a.toNat ≤ b.toNat

def IsHighest (s : Subnet) (a : Ipv4Addr) : Prop :=
  s.contains a = true ∧ ∀ b, s.contains b = true → b.toNat ≤ a.toNat

end Subnet

/-- The sweep asks the members of the subnet in ascending order, except for the first and the
last one, and no arithmetic overflows. -/
structure SweepsHosts (s : Subnet) : Prop where
  ascending : s.hosts.Pairwise fun a b => a.toNat < b.toNat
  mem : ∀ a, a ∈ s.hosts ↔ s.contains a = true ∧ ¬ s.IsLowest a ∧ ¬ s.IsHighest a
  checked : s.hostsChecked = some s.hosts

namespace Subnet

/-- The two modules test membership alike. -/
theorem contains_eq_v4In (s : Subnet) (a : Ipv4Addr) :
    s.contains a = v4In a s.network s.prefixLen := by
  rw [contains, netmask, v4In]
  by_cases hzero : s.prefixLen = 0
  · rw [if_pos hzero, if_pos hzero]
    show (a &&& 0#32 == s.network &&& 0#32) = true
    rw [BitVec.and_zero, BitVec.and_zero]
    rfl
  · rw [if_neg hzero, if_neg hzero]

theorem contains_iff (s : Subnet) (a : Ipv4Addr) :
    s.contains a = true ↔ InRange s.network s.prefixLen a := by
  rw [contains_eq_v4In, v4In_iff_inNet, inRange_iff_inNet]

/-! ### The range of a subnet -/

/-- How many addresses the subnet has. -/
def size (s : Subnet) : ℕ := 2 ^ (32 - s.prefixLen)

/-- The first of them, as a number. -/
def low (s : Subnet) : ℕ := s.network.toNat / s.size * s.size

theorem low_add_size_le {s : Subnet} (h : s.prefixLen ≤ 32) : s.low + s.size ≤ 2 ^ 32 := by
  have hsplit : 2 ^ 32 = s.size * 2 ^ s.prefixLen := by
    rw [size, ← Nat.pow_add]
    congr 1
    omega
  have hlt : s.network.toNat / s.size < 2 ^ s.prefixLen := by
    apply Nat.div_lt_of_lt_mul
    rw [← hsplit]
    exact s.network.isLt
  rw [low, hsplit, ← Nat.succ_mul, Nat.mul_comm s.size]
  exact Nat.mul_le_mul_right _ hlt

theorem contains_iff_low {s : Subnet} {a : Ipv4Addr} :
    s.contains a = true ↔ s.low ≤ a.toNat ∧ a.toNat < s.low + s.size := by
  have hpos : 0 < s.size := Nat.two_pow_pos _
  rw [contains_iff, InRange, ← size, ← low]
  omega

/-- Every number in the range is a member. -/
theorem contains_ofNat {s : Subnet} (h : s.prefixLen ≤ 32) {x : ℕ} (hlow : s.low ≤ x)
    (hhigh : x < s.low + s.size) :
    (BitVec.ofNat 32 x).toNat = x ∧ s.contains (BitVec.ofNat 32 x) = true := by
  have hle := low_add_size_le h
  have hval : (BitVec.ofNat 32 x).toNat = x := by
    rw [BitVec.toNat_ofNat, Nat.mod_eq_of_lt (by omega)]
  exact ⟨hval, contains_iff_low.mpr (by omega)⟩

theorem isLowest_iff {s : Subnet} (h : s.prefixLen ≤ 32) {a : Ipv4Addr} :
    s.IsLowest a ↔ a.toNat = s.low := by
  have hpos : 0 < s.size := Nat.two_pow_pos _
  constructor
  · rintro ⟨hmem, hleast⟩
    obtain ⟨hval, hcontains⟩ := contains_ofNat h (Nat.le_refl s.low) (by omega)
    have hle := hleast _ hcontains
    rw [contains_iff_low] at hmem
    omega
  · intro ha
    refine ⟨contains_iff_low.mpr (by omega), fun b hb => ?_⟩
    rw [contains_iff_low] at hb
    omega

theorem isHighest_iff {s : Subnet} (h : s.prefixLen ≤ 32) {a : Ipv4Addr} :
    s.IsHighest a ↔ a.toNat + 1 = s.low + s.size := by
  have hpos : 0 < s.size := Nat.two_pow_pos _
  constructor
  · rintro ⟨hmem, hgreatest⟩
    have hlast : s.low ≤ s.low + s.size - 1 := by omega
    obtain ⟨hval, hcontains⟩ := contains_ofNat h hlast (by omega)
    have hle := hgreatest _ hcontains
    rw [contains_iff_low] at hmem
    omega
  · intro ha
    refine ⟨contains_iff_low.mpr (by omega), fun b hb => ?_⟩
    rw [contains_iff_low] at hb
    omega

/-! ### The enumeration -/

theorem mapM_eq_some_map {α β : Type} {f : α → Option β} {g : α → β} {l : List α}
    (h : ∀ a ∈ l, f a = some (g a)) : l.mapM f = some (l.map g) := by
  induction l with
  | nil => rfl
  | cons a l ih =>
    rw [List.mapM_cons, h a List.mem_cons_self, ih fun b hb => h b (List.mem_cons_of_mem a hb)]
    rfl

section Swept

variable {s : Subnet} (hlow : 16 ≤ s.prefixLen) (hhigh : s.prefixLen ≤ 30)

include hlow hhigh

theorem toNat_base : (s.network &&& s.netmask).toNat = s.low := by
  rw [netmask, if_neg (by omega), Mask.toNat_and_high, low, size]

theorem toNat_count : ((1 : BitVec 32) <<< (32 - s.prefixLen)).toNat = s.size := by
  have hlt : 2 ^ (32 - s.prefixLen) < 2 ^ 32 := Nat.pow_lt_pow_right (by omega) (by omega)
  rw [BitVec.toNat_shiftLeft, Nat.shiftLeft_eq, size]
  show 1 * 2 ^ (32 - s.prefixLen) % 2 ^ 32 = _
  rw [Nat.one_mul, Nat.mod_eq_of_lt hlt]

theorem hosts_eq : s.hosts = (List.range' 1 (s.size - 2)).map fun i =>
    (s.network &&& s.netmask) + BitVec.ofNat 32 i := by
  rw [hosts, if_neg (by omega)]
  simp only [toNat_count hlow hhigh]
  rfl

/-- The sum for the host `i` stays below the last address. -/
theorem base_add_lt {i : ℕ} (hi : i ∈ List.range' 1 (s.size - 2)) :
    (s.network &&& s.netmask).toNat + (BitVec.ofNat 32 i).toNat = s.low + i ∧
      s.low + i < 2 ^ 32 := by
  have hle := @low_add_size_le s (by omega)
  rw [List.mem_range'_1] at hi
  rw [toNat_base hlow hhigh, BitVec.toNat_ofNat, Nat.mod_eq_of_lt (by omega)]
  exact ⟨rfl, by omega⟩

theorem map_toNat_hosts : s.hosts.map BitVec.toNat = List.range' (s.low + 1) (s.size - 2) := by
  rw [hosts_eq hlow hhigh, List.map_map, ← List.map_add_range']
  refine List.map_congr_left fun i hi => ?_
  obtain ⟨hsum, hlt⟩ := base_add_lt hlow hhigh hi
  rw [Function.comp_apply, BitVec.toNat_add, hsum, Nat.mod_eq_of_lt hlt]

theorem mem_hosts_iff {a : Ipv4Addr} :
    a ∈ s.hosts ↔ s.low < a.toNat ∧ a.toNat + 1 < s.low + s.size := by
  have hinj : Function.Injective (BitVec.toNat : Ipv4Addr → ℕ) := fun _ _ => BitVec.eq_of_toNat_eq
  rw [← List.mem_map_of_injective hinj, map_toNat_hosts hlow hhigh, List.mem_range'_1]
  omega

theorem hostsChecked_eq : s.hostsChecked = some s.hosts := by
  have hmask : s.netmaskChecked = some s.netmask := by
    rw [netmaskChecked, netmask, if_neg (by omega), if_neg (by omega)]
    exact Mask.checkedHigh_eq_some (by omega) (by omega)
  have hcount : s.countChecked = some ((1 : BitVec 32) <<< (32 - s.prefixLen)) :=
    if_pos ⟨by omega, by omega⟩
  rw [hostsChecked, if_neg (by omega), hmask, Option.bind_some, hcount, Option.bind_some,
    toNat_count hlow hhigh, hosts_eq hlow hhigh]
  refine mapM_eq_some_map fun i hi => ?_
  obtain ⟨hsum, hlt⟩ := base_add_lt hlow hhigh hi
  rw [addChecked, if_pos (hsum.trans_lt hlt)]

end Swept

/-- Every subnet that is not too wide is swept over its inner members, and membership is the
test of the access list. -/
theorem sweepsHosts (s : Subnet) :
    (16 ≤ s.prefixLen → s.prefixLen ≤ 30 → SweepsHosts s) ∧
      (s.prefixLen ≤ 32 → ∀ a, s.contains a = v4In a s.network s.prefixLen) := by
  refine ⟨fun hlow hhigh => ⟨?_, fun a => ?_, hostsChecked_eq hlow hhigh⟩,
    fun _ => contains_eq_v4In s⟩
  · have hsorted : (s.hosts.map BitVec.toNat).Pairwise (· < ·) := by
      rw [map_toNat_hosts hlow hhigh]
      exact List.pairwise_lt_range'
    exact List.pairwise_map.mp hsorted
  · have hle : s.prefixLen ≤ 32 := by omega
    rw [mem_hosts_iff hlow hhigh, contains_iff_low, isLowest_iff hle, isHighest_iff hle]
    omega

/-- The subnet at the very end of the address space. -/
example : (Subnet.mk (Ipv4Addr.ofOctets 255 255 255 253) 30).hosts =
    [Ipv4Addr.ofOctets 255 255 255 253, Ipv4Addr.ofOctets 255 255 255 254] := by
  decide

end Subnet

end Netwatch
