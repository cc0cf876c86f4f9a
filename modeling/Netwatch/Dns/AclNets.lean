import Netwatch.Dns.Acl

/-!
# What an entry covers

Every entry of the access list is a list of subnets in each address family: the keywords stand
for fixed ones, and a CIDR entry for itself. `Rule.allows` is membership in one of them.

## Main definitions

- `InNet` — same leading bits
- `Rule.nets4`, `Rule.nets6` — the subnets of an entry
- `Acl.nets4`, `Acl.nets6` — those of a list

## Main results

- `Acl.allows_v4_iff`, `Acl.allows_v6_iff` — a list lets in the addresses of its subnets
-/

namespace Netwatch

open RustStd

/-- `a` has the leading `net.2` bits of `net.1`. -/
def InNet {w : ℕ} (net : BitVec w × ℕ) (a : BitVec w) : Prop :=
  a.toNat / 2 ^ (w - net.2) = net.1.toNat / 2 ^ (w - net.2)

instance {w : ℕ} (net : BitVec w × ℕ) (a : BitVec w) : Decidable (InNet net a) :=
  inferInstanceAs (Decidable (_ = _))

/-- 10/8, 172.16/12, 192.168/16, 169.254/16 and 100.64/10. -/
def privateNets4 : List (Ipv4Addr × ℕ) :=
  [(Ipv4Addr.ofOctets 10 0 0 0, 8), (Ipv4Addr.ofOctets 172 16 0 0, 12),
    (Ipv4Addr.ofOctets 192 168 0 0, 16), (Ipv4Addr.ofOctets 169 254 0 0, 16),
    (Ipv4Addr.ofOctets 100 64 0 0, 10)]

def loopbackNet4 : Ipv4Addr × ℕ := (Ipv4Addr.ofOctets 127 0 0 0, 8)

/-- The IPv4-mapped image of an IPv4 subnet, `::ffff:n/(96 + p)`. -/
def mapped (net : Ipv4Addr × ℕ) : Ipv6Addr × ℕ :=
  (BitVec.ofNat 128 (0xffff * 2 ^ 32 + net.1.toNat), 96 + net.2)

/-- fc00::/7, fe80::/10 and the images of the IPv4 ranges. -/
def privateNets6 : List (Ipv6Addr × ℕ) :=
  (BitVec.ofNat 128 (0xfc00 * 2 ^ 112), 7) :: (BitVec.ofNat 128 (0xfe80 * 2 ^ 112), 10) ::
    privateNets4.map mapped

def loopbackNet6 : Ipv6Addr × ℕ := (1, 128)

namespace Rule

def nets4 : Rule → List (Ipv4Addr × ℕ)
  | .any => [(0, 0)]
  | .loopback => [loopbackNet4]
  | .privateNets => loopbackNet4 :: privateNets4
  | .v4 network prefixLen => [(network, prefixLen)]
  | .v6 _ _ => []

def nets6 : Rule → List (Ipv6Addr × ℕ)
  | .any => [(0, 0)]
  | .loopback => [loopbackNet6]
  | .privateNets => loopbackNet6 :: privateNets6
  | .v4 _ _ => []
  | .v6 network prefixLen => [(network, prefixLen)]

end Rule

theorem inNet_zero {w : ℕ} (network a : BitVec w) : InNet (network, 0) a := by
  rw [InNet, Nat.sub_zero, Nat.div_eq_of_lt a.isLt, Nat.div_eq_of_lt network.isLt]

theorem v4In_iff_inNet (a network : Ipv4Addr) (prefixLen : ℕ) :
    v4In a network prefixLen = true ↔ InNet (network, prefixLen) a :=
  Mask.masked_iff a network prefixLen

theorem v6In_iff_inNet (a network : Ipv6Addr) (prefixLen : ℕ) :
    v6In a network prefixLen = true ↔ InNet (network, prefixLen) a :=
  Mask.masked_iff a network prefixLen

theorem isPrivateV4_iff (a : Ipv4Addr) :
    isPrivateV4 a = true ↔ ∃ net ∈ privateNets4, InNet net a := by
  have ha := a.isLt
  simp only [privateNets4, List.mem_cons, List.not_mem_nil, or_false, exists_eq_or_imp,
    exists_eq_left, InNet]
  rw [show (Ipv4Addr.ofOctets 10 0 0 0).toNat / 2 ^ (32 - 8) = 10 from rfl,
    show (Ipv4Addr.ofOctets 172 16 0 0).toNat / 2 ^ (32 - 12) = 2753 from rfl,
    show (Ipv4Addr.ofOctets 192 168 0 0).toNat / 2 ^ (32 - 16) = 49320 from rfl,
    show (Ipv4Addr.ofOctets 169 254 0 0).toNat / 2 ^ (32 - 16) = 43518 from rfl,
    show (Ipv4Addr.ofOctets 100 64 0 0).toNat / 2 ^ (32 - 10) = 401 from rfl]
  have hfirst : a.octet 0 = a.toNat / 2 ^ 24 := by
    rw [Ipv4Addr.octet]
    omega
  have hsecond : a.octet 0 * 256 + a.octet 1 = a.toNat / 2 ^ 16 ∧ a.octet 1 < 256 := by
    rw [hfirst, Ipv4Addr.octet]
    omega
  have h172 : (a.octet 0 = 172 ∧ 16 ≤ a.octet 1) ∧ a.octet 1 ≤ 31 ↔
      a.toNat / 2 ^ (32 - 12) = 2753 := by omega
  have h192 : a.octet 0 = 192 ∧ a.octet 1 = 168 ↔ a.toNat / 2 ^ (32 - 16) = 49320 := by omega
  have h169 : a.octet 0 = 169 ∧ a.octet 1 = 254 ↔ a.toNat / 2 ^ (32 - 16) = 43518 := by omega
  have h100 : (a.octet 0 = 100 ∧ 64 ≤ a.octet 1) ∧ a.octet 1 < 128 ↔
      a.toNat / 2 ^ (32 - 10) = 401 := by omega
  simp only [isPrivateV4, Ipv4Addr.isPrivate, Ipv4Addr.isLinkLocal, Bool.or_eq_true,
    Bool.and_eq_true, beq_iff_eq, decide_eq_true_iff]
  rw [h172, h192, h169, h100, hfirst, or_assoc, or_assoc, or_assoc]

theorem v4_isLoopback_iff (a : Ipv4Addr) : a.isLoopback = true ↔ InNet loopbackNet4 a := by
  have ha := a.isLt
  rw [InNet, loopbackNet4,
    show (Ipv4Addr.ofOctets 127 0 0 0).toNat / 2 ^ (32 - 8) = 127 from rfl]
  simp only [Ipv4Addr.isLoopback, Ipv4Addr.octet, beq_iff_eq, Nat.reduceSub, Nat.reducePow]
  omega

theorem v6_isLoopback_iff (a : Ipv6Addr) : a.isLoopback = true ↔ InNet loopbackNet6 a := by
  rw [InNet, loopbackNet6, Ipv6Addr.isLoopback, beq_iff_eq, Nat.sub_self, Nat.pow_zero,
    Nat.div_one, Nat.div_one, BitVec.toNat_inj]

/-- A v4-mapped address is judged on its IPv4 value. -/
theorem inNet_mapped_iff (a : Ipv6Addr) (network : Ipv4Addr) {prefixLen : ℕ}
    (h : prefixLen ≤ 32) :
    InNet (mapped (network, prefixLen)) a ↔
      ∃ b, a.toIpv4Mapped = some b ∧ InNet (network, prefixLen) b := by
  have ha := a.isLt
  have hn := network.isLt
  have hsplit : 2 ^ 32 = 2 ^ (32 - prefixLen) * 2 ^ prefixLen := by
    rw [← Nat.pow_add, Nat.sub_add_cancel h]
  have hpos : 0 < 2 ^ (32 - prefixLen) := Nat.two_pow_pos _
  have hexp : 128 - (96 + prefixLen) = 32 - prefixLen := by omega
  have hbase : (mapped (network, prefixLen)).1.toNat = 0xffff * 2 ^ 32 + network.toNat := by
    rw [mapped, BitVec.toNat_ofNat, Nat.mod_eq_of_lt]
    omega
  have hlow : ∀ x, (0xffff * 2 ^ 32 + x) / 2 ^ (32 - prefixLen) =
      0xffff * 2 ^ prefixLen + x / 2 ^ (32 - prefixLen) := by
    intro x
    rw [hsplit, Nat.mul_left_comm, Nat.mul_add_div hpos]
  rw [InNet, hbase]
  simp only [mapped]
  rw [hexp, hlow]
  by_cases hm : a.toNat / 2 ^ 32 = 0xffff
  · have hval : a.toNat = 0xffff * 2 ^ 32 + a.toNat % 2 ^ 32 := by omega
    have hval' : a.toNat / 2 ^ (32 - prefixLen) =
        0xffff * 2 ^ prefixLen + a.toNat % 2 ^ 32 / 2 ^ (32 - prefixLen) := by
      rw [← hlow, ← hval]
    rw [hval']
    simp only [Ipv6Addr.toIpv4Mapped, hm, if_true, Option.some.injEq, exists_eq_left', InNet,
      BitVec.toNat_ofNat]
    omega
  · simp only [Ipv6Addr.toIpv4Mapped, hm, if_false, reduceCtorEq, false_and, exists_false,
      iff_false]
    -- equal leading bits would give equal quotients by 2 ^ 32
    intro heq
    have hq := congrArg (· / 2 ^ prefixLen) heq
    simp only [Nat.div_div_eq_div_mul, ← hsplit] at hq
    rw [hq, Nat.add_comm, Nat.add_mul_div_right _ _ (Nat.two_pow_pos prefixLen),
      Nat.div_div_eq_div_mul, ← hsplit, Nat.div_eq_of_lt hn, Nat.zero_add] at hm
    exact hm rfl

/-- The test of the leading segment against a masked pattern. -/
theorem segment_and_iff (a : Ipv6Addr) (pattern : BitVec 16) (k : ℕ) :
    a.segment 0 &&& (Mask.high 16 k).toNat = (pattern &&& Mask.high 16 k).toNat ↔
      a.toNat / 2 ^ (112 + k) = pattern.toNat / 2 ^ k := by
  have ha := a.isLt
  have hseg : a.segment 0 = a.toNat / 2 ^ 112 := by
    rw [Ipv6Addr.segment]
    omega
  have hlt : a.segment 0 < 2 ^ 16 := by omega
  have hnat : a.segment 0 = (BitVec.ofNat 16 (a.segment 0)).toNat := by
    rw [BitVec.toNat_ofNat, Nat.mod_eq_of_lt hlt]
  rw [hnat, ← BitVec.toNat_and, BitVec.toNat_inj, Mask.and_high_eq_iff, ← hnat, hseg,
    Nat.div_div_eq_div_mul, ← Nat.pow_add]

theorem exists_mapped_iff (a : Ipv6Addr) :
    a.toIpv4Mapped.any isPrivateV4 = true ↔ ∃ net ∈ privateNets4.map mapped, InNet net a := by
  have hlen : ∀ net ∈ privateNets4, net.2 ≤ 32 := by decide
  rw [Option.any_eq_true]
  simp only [isPrivateV4_iff, List.mem_map, exists_exists_and_eq_and]
  constructor
  · rintro ⟨b, hb, net, hnet, hin⟩
    exact ⟨net, hnet, (inNet_mapped_iff a net.1 (hlen net hnet)).mpr ⟨b, hb, hin⟩⟩
  · rintro ⟨net, hnet, hin⟩
    obtain ⟨b, hb, hin⟩ := (inNet_mapped_iff a net.1 (hlen net hnet)).mp hin
    exact ⟨b, hb, net, hnet, hin⟩

theorem isPrivate_v6_iff (a : Ipv6Addr) :
    isPrivate (.v6 a) = true ↔ ∃ net ∈ privateNets6, InNet net a := by
  have hlocal := segment_and_iff a 0xfc00 9
  have hlink := segment_and_iff a 0xfe80 6
  rw [show (Mask.high 16 9).toNat = 0xfe00 by decide,
    show ((0xfc00 : BitVec 16) &&& Mask.high 16 9).toNat = 0xfc00 by decide] at hlocal
  rw [show (Mask.high 16 6).toNat = 0xffc0 by decide,
    show ((0xfe80 : BitVec 16) &&& Mask.high 16 6).toNat = 0xfe80 by decide] at hlink
  simp only [isPrivate, Bool.or_eq_true, beq_iff_eq, privateNets6, List.mem_cons,
    exists_eq_or_imp]
  rw [hlocal, hlink, exists_mapped_iff, or_assoc]
  exact Iff.rfl

/-- An entry serves an IPv4 address when one of its IPv4 subnets holds it. -/
theorem Rule.allows_v4_iff_nets (r : Rule) (a : Ipv4Addr) :
    Rule.allows (.v4 a) r = true ↔ ∃ net ∈ r.nets4, InNet net a := by
  cases r with
  | any => simp [Rule.allows, nets4, inNet_zero]
  | loopback => simp [Rule.allows, nets4, IpAddr.isLoopback, v4_isLoopback_iff]
  | privateNets =>
    simp only [Rule.allows, nets4, isPrivate, IpAddr.isLoopback, Bool.or_eq_true,
      isPrivateV4_iff, v4_isLoopback_iff, List.mem_cons, exists_eq_or_imp]
    exact or_comm
  | v4 network prefixLen => simp [Rule.allows, nets4, v4In_iff_inNet]
  | v6 network prefixLen => simp [Rule.allows, nets4]

theorem Rule.allows_v6_iff_nets (r : Rule) (a : Ipv6Addr) :
    Rule.allows (.v6 a) r = true ↔ ∃ net ∈ r.nets6, InNet net a := by
  cases r with
  | any => simp [Rule.allows, nets6, inNet_zero]
  | loopback => simp [Rule.allows, nets6, IpAddr.isLoopback, v6_isLoopback_iff]
  | privateNets =>
    simp only [Rule.allows, nets6, IpAddr.isLoopback, Bool.or_eq_true, isPrivate_v6_iff,
      v6_isLoopback_iff, List.mem_cons, exists_eq_or_imp]
    exact or_comm
  | v4 network prefixLen => simp [Rule.allows, nets6]
  | v6 network prefixLen => simp [Rule.allows, nets6, v6In_iff_inNet]

namespace Acl

/-- The entries a list stands for: an empty one means `private`. -/
def effective (acl : Acl) : List Rule :=
  if acl.rules.isEmpty then [.privateNets] else acl.rules

theorem allows_eq_effective (acl : Acl) (addr : IpAddr) :
    acl.allows addr = acl.effective.any (Rule.allows addr) := by
  rw [allows, effective]
  split
  · simp [Rule.allows]
  · rfl

def nets4 (acl : Acl) : List (Ipv4Addr × ℕ) := acl.effective.flatMap Rule.nets4

def nets6 (acl : Acl) : List (Ipv6Addr × ℕ) := acl.effective.flatMap Rule.nets6

theorem exists_mem_flatMap {α β : Type} {f : α → List β} {l : List α} {P : β → Prop} :
    (∃ b ∈ l.flatMap f, P b) ↔ ∃ a ∈ l, ∃ b ∈ f a, P b := by
  simp only [List.mem_flatMap]
  constructor
  · rintro ⟨b, ⟨a, ha, hb⟩, h⟩
    exact ⟨a, ha, b, hb, h⟩
  · rintro ⟨a, ha, b, hb, h⟩
    exact ⟨b, ⟨a, ha, hb⟩, h⟩

/-- The list serves an IPv4 address when a subnet of it holds the address. -/
theorem allows_v4_iff (acl : Acl) (a : Ipv4Addr) :
    acl.allows (.v4 a) = true ↔ ∃ net ∈ acl.nets4, InNet net a := by
  rw [allows_eq_effective, List.any_eq_true, nets4, exists_mem_flatMap]
  simp only [Rule.allows_v4_iff_nets]

theorem allows_v6_iff (acl : Acl) (a : Ipv6Addr) :
    acl.allows (.v6 a) = true ↔ ∃ net ∈ acl.nets6, InNet net a := by
  rw [allows_eq_effective, List.any_eq_true, nets6, exists_mem_flatMap]
  simp only [Rule.allows_v6_iff_nets]

end Acl

end Netwatch
