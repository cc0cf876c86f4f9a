import Netwatch.Dns.AclNets

/-!
# IPv4-mapped clients

`is_private` judges a mapped address on its IPv4 value. The test for loopback addresses and the
CIDR entries take it as the IPv6 address that it is.

## Main definitions

- `Acl.trustAll` — the list after some calls of `trust_subnet`
- `Acl.JudgedAlike` — no entry tells an address from its mapped image

## Main results

- `allows_mapped_iff` — the addresses that are judged like their mapped image
-/

namespace Netwatch

open RustStd

theorem isLoopback_toIpv6Mapped (a : Ipv4Addr) : a.toIpv6Mapped.isLoopback = false := by
  rw [Ipv6Addr.isLoopback, beq_eq_false_iff_ne]
  intro heq
  have hval := congrArg BitVec.toNat heq
  rw [Ipv4Addr.toNat_toIpv6Mapped] at hval
  have hone : (1 : Ipv6Addr).toNat = 1 := rfl
  omega

/-- The ranges that are local by themselves do not contain a mapped address. -/
theorem isPrivate_toIpv6Mapped (a : Ipv4Addr) : isPrivate (.v6 a.toIpv6Mapped) = isPrivateV4 a := by
  have ha := a.isLt
  have hseg : a.toIpv6Mapped.segment 0 = 0 := by
    rw [Ipv6Addr.segment, Ipv4Addr.toNat_toIpv6Mapped]
    omega
  rw [isPrivate, hseg, Ipv6Addr.toIpv4Mapped_eq_some_iff.mpr rfl]
  rfl

namespace Acl

def trustAll (calls : List (Ipv4Addr × ℕ)) (acl : Acl) : Acl :=
  calls.foldl (fun acl c => (acl.trustSubnet c.1 c.2).2) acl

/-- An IPv4 entry that does not look behind a mapped address. -/
def OwnV4 (acl : Acl) (a : Ipv4Addr) : Prop :=
  (a.isLoopback = true ∧ (.loopback ∈ acl.effective ∨ .privateNets ∈ acl.effective)) ∨
    ∃ n p, .v4 n p ∈ acl.effective ∧ InNet (n, p) a

/-- An IPv6 entry that covers the mapped image. -/
def OwnV6 (acl : Acl) (a : Ipv4Addr) : Prop :=
  ∃ n p, .v6 n p ∈ acl.effective ∧ InNet (n, p) a.toIpv6Mapped

/-- The list lets everyone in, or the private ranges with the address among them; or else its
IPv4 entries cover the address exactly if its IPv6 entries cover the image. -/
def JudgedAlike (acl : Acl) (a : Ipv4Addr) : Prop :=
  .any ∈ acl.effective ∨ (.privateNets ∈ acl.effective ∧ isPrivateV4 a = true) ∨
    (acl.OwnV4 a ↔ acl.OwnV6 a)

theorem allows_v4_iff_own (acl : Acl) (a : Ipv4Addr) :
    acl.allows (.v4 a) = true ↔ .any ∈ acl.effective ∨
      (.privateNets ∈ acl.effective ∧ isPrivateV4 a = true) ∨ acl.OwnV4 a := by
  rw [allows_eq_effective, List.any_eq_true, OwnV4]
  constructor
  · rintro ⟨r, hr, hallows⟩
    cases r with
    | any => exact .inl hr
    | loopback => exact .inr (.inr (.inl ⟨hallows, .inl hr⟩))
    | privateNets =>
      obtain hprivate | hloopback := Bool.or_eq_true_iff.mp hallows
      · exact .inr (.inl ⟨hr, hprivate⟩)
      · exact .inr (.inr (.inl ⟨hloopback, .inr hr⟩))
    | v4 n p => exact .inr (.inr (.inr ⟨n, p, hr, (v4In_iff_inNet a n p).mp hallows⟩))
    | v6 n p => cases hallows
  · rintro (hany | ⟨hr, hprivate⟩ | ⟨hloopback, hr | hr⟩ | ⟨n, p, hr, hin⟩)
    · exact ⟨.any, hany, rfl⟩
    · exact ⟨.privateNets, hr, Bool.or_eq_true_iff.mpr (.inl hprivate)⟩
    · exact ⟨.loopback, hr, hloopback⟩
    · exact ⟨.privateNets, hr, Bool.or_eq_true_iff.mpr (.inr hloopback)⟩
    · exact ⟨.v4 n p, hr, (v4In_iff_inNet a n p).mpr hin⟩

theorem allows_mapped_iff_own (acl : Acl) (a : Ipv4Addr) :
    acl.allows (.v6 a.toIpv6Mapped) = true ↔ .any ∈ acl.effective ∨
      (.privateNets ∈ acl.effective ∧ isPrivateV4 a = true) ∨ acl.OwnV6 a := by
  have hnot : (IpAddr.v6 a.toIpv6Mapped).isLoopback = false := isLoopback_toIpv6Mapped a
  rw [allows_eq_effective, List.any_eq_true, OwnV6, ← isPrivate_toIpv6Mapped]
  constructor
  · rintro ⟨r, hr, hallows⟩
    cases r with
    | any => exact .inl hr
    | loopback => exact absurd (hnot.symm.trans hallows) Bool.false_ne_true
    | privateNets =>
      obtain hprivate | hloopback := Bool.or_eq_true_iff.mp hallows
      · exact .inr (.inl ⟨hr, hprivate⟩)
      · exact absurd (hnot.symm.trans hloopback) Bool.false_ne_true
    | v4 n p => cases hallows
    | v6 n p => exact .inr (.inr ⟨n, p, hr, (v6In_iff_inNet _ n p).mp hallows⟩)
  · rintro (hany | ⟨hr, hprivate⟩ | ⟨n, p, hr, hin⟩)
    · exact ⟨.any, hany, rfl⟩
    · exact ⟨.privateNets, hr, Bool.or_eq_true_iff.mpr (.inl hprivate)⟩
    · exact ⟨.v6 n p, hr, (v6In_iff_inNet _ n p).mpr hin⟩

/-- Whatever subnets have been trusted, an address and its mapped image are judged alike exactly
if no loopback or CIDR entry sees a difference. -/
theorem allows_mapped_iff (acl : Acl) (calls : List (Ipv4Addr × ℕ)) (a : Ipv4Addr) :
    (acl.trustAll calls).allows (.v6 a.toIpv6Mapped) = (acl.trustAll calls).allows (.v4 a) ↔
      (acl.trustAll calls).JudgedAlike a := by
  rw [Bool.eq_iff_iff, allows_mapped_iff_own, allows_v4_iff_own, JudgedAlike]
  by_cases hany : .any ∈ (acl.trustAll calls).effective
  · simp only [hany, true_or]
  · by_cases hprivate : .privateNets ∈ (acl.trustAll calls).effective ∧ isPrivateV4 a = true
    · simp only [hprivate, and_self, true_or, or_true]
    · simp only [hany, hprivate, false_or]
      exact iff_comm

/-- The built-in list serves 127.0.0.1 and not its mapped image, and it serves a trusted LAN and
not its mapped images. -/
theorem not_judgedAlike :
    parse ["loopback".toList, "private".toList] = .ok ⟨[.loopback, .privateNets]⟩ ∧
    ((Acl.mk [.loopback, .privateNets]).allows (.v4 (Ipv4Addr.ofOctets 127 0 0 1)) = true ∧
      (Acl.mk [.loopback, .privateNets]).allows
        (.v6 (Ipv4Addr.ofOctets 127 0 0 1).toIpv6Mapped) = false) ∧
    let trusted := (Acl.mk [.loopback, .privateNets]).trustAll [(Ipv4Addr.ofOctets 203 0 113 0, 24)]
    trusted.allows (.v4 (Ipv4Addr.ofOctets 203 0 113 50)) = true ∧
      trusted.allows (.v6 (Ipv4Addr.ofOctets 203 0 113 50).toIpv6Mapped) = false := by
  refine ⟨rfl, ⟨by decide, by decide⟩, by decide, by decide⟩

end Acl

end Netwatch
