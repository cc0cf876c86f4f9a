import Netwatch.Dns.Acl

/-!
# Trusting the detected LAN

When does `trust_subnet` widen the list by the LAN and by nothing else? The two ways it
fails are the implicit meaning of the empty list, which the push removes, and the test of
one address on behalf of the whole subnet.
-/

namespace Netwatch.Acl

open RustStd

/-- What a list with the `private` stance should allow once the LAN is trusted. -/
def WidenedBy (acl : Acl) (network : Ipv4Addr) (prefixLen : ℕ) (addr : IpAddr) : Prop :=
  acl.allows addr = true ∨ ∃ a, addr = .v4 a ∧ InSubnet network prefixLen a

/-- After the call exactly the addresses allowed before are allowed, and those of the LAN
when the list has the `private` stance. -/
def TrustIsExact (acl : Acl) (network : Ipv4Addr) (prefixLen : ℕ) : Prop :=
  ∀ addr, (acl.trustSubnet network prefixLen).2.allows addr = true ↔
    if acl.privateStance then acl.WidenedBy network prefixLen addr else acl.allows addr = true

def Covers (acl : Acl) (network : Ipv4Addr) (prefixLen : ℕ) : Prop :=
  ∀ a, InSubnet network prefixLen a → acl.allows (.v4 a) = true

theorem Rule.allows_v4_iff (network : Ipv4Addr) (prefixLen : ℕ) (addr : IpAddr) :
    Rule.allows addr (.v4 network prefixLen) = true ↔
      ∃ a, addr = .v4 a ∧ InSubnet network prefixLen a := by
  cases addr with
  | v4 a => simp [Rule.allows, v4In_iff]
  | v6 a => simp [Rule.allows]

theorem trustSubnet_of_not_stance {acl : Acl} (h : acl.privateStance = false)
    (network : Ipv4Addr) (prefixLen : ℕ) :
    acl.trustSubnet network prefixLen = (false, acl) := by
  simp [trustSubnet, h]

theorem trustSubnet_of_allowed {acl : Acl} {network : Ipv4Addr}
    (h : acl.allows (.v4 network) = true) (prefixLen : ℕ) :
    acl.trustSubnet network prefixLen = (false, acl) := by
  simp [trustSubnet, h]

theorem trustSubnet_of_pushed {acl : Acl} {network : Ipv4Addr}
    (hs : acl.privateStance = true) (h : acl.allows (.v4 network) = false) (prefixLen : ℕ) :
    acl.trustSubnet network prefixLen = (true, ⟨acl.rules ++ [.v4 network prefixLen]⟩) := by
  simp [trustSubnet, hs, h]

/-- Without a push the call is exact when the whole subnet was allowed before. -/
theorem widenedBy_iff_of_covers {acl : Acl} {network : Ipv4Addr} {prefixLen : ℕ} :
    (∀ addr, acl.allows addr = true ↔ acl.WidenedBy network prefixLen addr) ↔
      acl.Covers network prefixLen := by
  constructor
  · intro h a ha
    exact (h (.v4 a)).mpr (.inr ⟨a, rfl, ha⟩)
  · intro h addr
    constructor
    · exact .inl
    · rintro (hb | ⟨a, rfl, ha⟩)
      · exact hb
      · exact h a ha

theorem allows_push_iff {acl : Acl} (h : acl.rules ≠ []) (network : Ipv4Addr)
    (prefixLen : ℕ) (addr : IpAddr) :
    (Acl.mk (acl.rules ++ [.v4 network prefixLen])).allows addr = true ↔
      acl.WidenedBy network prefixLen addr := by
  rw [allows_append h, Bool.or_eq_true, Rule.allows_v4_iff]
  exact Iff.rfl

theorem not_allows_push_of_nil (network : Ipv4Addr) (prefixLen : ℕ) :
    (Acl.mk ([] ++ [Rule.v4 network prefixLen])).allows (.v6 1) = false := by
  simp [allows, Rule.allows]

theorem allows_nil_loopback6 : (Acl.mk []).allows (.v6 1) = true := by decide

/-- Trusting the LAN is exact for a list without the `private` stance, for a LAN that was
served in full already, and for a non-empty list whose rules leave the network address
out; in every other case the call serves too few addresses. -/
theorem trustSubnet_exact_iff (acl : Acl) (network : Ipv4Addr) (prefixLen : ℕ) :
    acl.TrustIsExact network prefixLen ↔
      acl.privateStance = false ∨ acl.Covers network prefixLen ∨
        (acl.rules ≠ [] ∧ acl.allows (.v4 network) = false) := by
  rw [TrustIsExact]
  cases hs : acl.privateStance with
  | false => simp [trustSubnet_of_not_stance hs]
  | true =>
    simp only [if_true, Bool.true_eq_false, false_or]
    cases hn : acl.allows (.v4 network) with
    | true =>
      rw [trustSubnet_of_allowed hn]
      simp only [Bool.true_eq_false, and_false, or_false]
      exact widenedBy_iff_of_covers
    | false =>
      have hcov : ¬ acl.Covers network prefixLen := by
        intro h
        have := h network rfl
        simp [hn] at this
      rw [trustSubnet_of_pushed hs hn]
      simp only [hcov, false_or, and_true]
      constructor
      · intro h hnil
        have hacl : acl = ⟨[]⟩ := by cases acl; simpa using hnil
        subst hacl
        have h1 := (h (.v6 1)).mpr (.inl allows_nil_loopback6)
        rw [not_allows_push_of_nil] at h1
        exact Bool.false_ne_true h1
      · intro h addr
        exact allows_push_iff h network prefixLen addr

/-- With no entry at all, trusting `203.0.113.0/24` stops serving `192.168.1.20`; and with
`private`, trusting `10.0.0.0/7` leaves `11.0.0.1` unserved. -/
theorem trustSubnet_not_exact :
    (∃ acl, parse [] = .ok acl ∧
      acl.allows (.v4 (Ipv4Addr.ofOctets 192 168 1 20)) = true ∧
      ¬ acl.TrustIsExact (Ipv4Addr.ofOctets 203 0 113 0) 24) ∧
    ∃ acl, parse ["private".toList] = .ok acl ∧
      ¬ acl.TrustIsExact (Ipv4Addr.ofOctets 10 0 0 0) 7 := by
  constructor
  · refine ⟨⟨[]⟩, rfl, by decide, fun h => ?_⟩
    have hlost := (h (.v4 (Ipv4Addr.ofOctets 192 168 1 20))).mpr (.inl (by decide))
    exact absurd hlost (by decide)
  · refine ⟨⟨[.privateNets]⟩, rfl, fun h => ?_⟩
    have hserved := (h (.v4 (Ipv4Addr.ofOctets 11 0 0 1))).mpr
      (.inr ⟨Ipv4Addr.ofOctets 11 0 0 1, rfl, by decide⟩)
    exact absurd hserved (by decide)

end Netwatch.Acl
