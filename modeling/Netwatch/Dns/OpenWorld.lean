import Netwatch.Dns.AclNets
import Netwatch.Intervals.Cover
import Netwatch.Netinfo

/-!
# A list that serves the whole internet

The warning at startup asks for the rule `any`. Without that rule a list still serves all of an
address family when its subnets leave no gap there.

## Main definitions

- `Acl.withLan` — the list in force, after the call of `trust_subnet`
- `Acl.OpenReported` — whoever serves a whole family is reported

## Main results

- `openReported_iff` — the lists for which the report is right
-/

namespace Netwatch.Acl

open RustStd Intervals

def withLan (acl : Acl) : Option Subnet → Acl
  | some s => (acl.trustSubnet s.network s.prefixLen).2
  | none => acl

/-- The list lets in every IPv4 address or every IPv6 address only if `is_open_to_world`. -/
def OpenReported (acl : Acl) : Prop :=
  ((∀ a : Ipv4Addr, acl.allows (.v4 a) = true) ∨ (∀ a : Ipv6Addr, acl.allows (.v6 a) = true)) →
    acl.isOpenToWorld = true

/-- The entry is one of the three spellings of `any`. -/
def SpelledAny (raw : Str) : Prop :=
  Str.toAsciiLowercase (Str.trim raw) ∈ ["any".toList, "all".toList, "0.0.0.0/0".toList]

instance (raw : Str) : Decidable (SpelledAny raw) := inferInstanceAs (Decidable (_ ∈ _))

/-- The first and the last address of a subnet. -/
def block {w : ℕ} (net : BitVec w × ℕ) : Block :=
  let size := 2 ^ (w - net.2)
  (net.1.toNat / size * size, net.1.toNat / size * size + (size - 1))

theorem inNet_iff_contains {w : ℕ} (net : BitVec w × ℕ) (a : BitVec w) :
    InNet net a ↔ (block net).Contains a.toNat := by
  have hpos : 0 < 2 ^ (w - net.2) := Nat.two_pow_pos _
  rw [InNet, Nat.div_eq_iff hpos, Block.Contains, block]
  have hsub : net.1.toNat / 2 ^ (w - net.2) * 2 ^ (w - net.2) + 2 ^ (w - net.2) - 1 =
      net.1.toNat / 2 ^ (w - net.2) * 2 ^ (w - net.2) + (2 ^ (w - net.2) - 1) :=
    Nat.add_sub_assoc hpos _
  rw [hsub]

/-- Finitely many subnets hold every address exactly when they leave no gap. -/
theorem nets_cover_iff {w : ℕ} (nets : List (BitVec w × ℕ)) :
    (∀ a : BitVec w, ∃ net ∈ nets, InNet net a) ↔ ¬ Gap (nets.map block) (2 ^ w) := by
  rw [← covers_iff (Nat.two_pow_pos w)]
  simp only [Covered, List.mem_map, exists_exists_and_eq_and, inNet_iff_contains]
  constructor
  · intro h a ha
    have hval := h (BitVec.ofNat w a)
    rwa [BitVec.toNat_ofNat, Nat.mod_eq_of_lt ha] at hval
  · intro h a
    exact h a.toNat a.isLt

theorem allows_all_v4_iff (acl : Acl) :
    (∀ a : Ipv4Addr, acl.allows (.v4 a) = true) ↔ ¬ Gap (acl.nets4.map block) (2 ^ 32) := by
  simp only [allows_v4_iff]
  exact nets_cover_iff acl.nets4

theorem allows_all_v6_iff (acl : Acl) :
    (∀ a : Ipv6Addr, acl.allows (.v6 a) = true) ↔ ¬ Gap (acl.nets6.map block) (2 ^ 128) := by
  simp only [allows_v6_iff]
  exact nets_cover_iff acl.nets6

theorem parseCidr_ne_any (s : Str) : parseCidr s ≠ .ok .any := by
  intro h
  unfold parseCidr at h
  split at h
  · cases h
  · split at h
    · cases h
    · split at h
      · cases h
      -- either family has its own limit on the prefix, and neither gives `any`
      all_goals
        split at h <;> cases h

theorem parseEntry_eq_any_iff (raw : Str) : parseEntry raw = .ok .any ↔ SpelledAny raw := by
  rw [SpelledAny, parseEntry]
  generalize Str.toAsciiLowercase (Str.trim raw) = e
  simp only [List.mem_cons, List.not_mem_nil, or_false]
  split
  · next h =>
    -- another keyword, neither the rule nor the spelling
    obtain h | h := h
    · simp [h]
    · simp [h]
  · split
    · next h =>
      obtain h | h := h
      · simp [h]
      · simp [h]
    · split
      · next h => simp only [h]
      · next h =>
        simp only [h, iff_false]
        intro heq
        split at heq
        · next rule hc =>
          cases heq
          exact parseCidr_ne_any e hc
        · cases heq

/-- The call of `trust_subnet` neither adds nor removes the rule `any`. -/
theorem any_mem_withLan_iff (acl : Acl) (lan : Option Subnet) :
    Rule.any ∈ (acl.withLan lan).rules ↔ Rule.any ∈ acl.rules := by
  cases lan with
  | none => rfl
  | some s =>
    rw [withLan, trustSubnet]
    split
    · rfl
    · split
      · rfl
      · simp

theorem isOpenToWorld_iff {entries : List Str} {acl : Acl} (h : parse entries = .ok acl)
    (lan : Option Subnet) :
    (acl.withLan lan).isOpenToWorld = true ↔ ∃ raw ∈ entries, SpelledAny raw := by
  rw [isOpenToWorld, List.contains_iff_mem, any_mem_withLan_iff, mem_rules_iff h]
  simp only [parseEntry_eq_any_iff]

/-- For a list that `parse` accepts and the LAN that may be found, the report is right exactly
when an entry spells `any`, or the subnets in force leave a gap in both families. -/
theorem openReported_iff {entries : List Str} {acl : Acl} (h : parse entries = .ok acl)
    (lan : Option Subnet) :
    (acl.withLan lan).OpenReported ↔
      (∃ raw ∈ entries, SpelledAny raw) ∨
        (Gap ((acl.withLan lan).nets4.map block) (2 ^ 32) ∧
          Gap ((acl.withLan lan).nets6.map block) (2 ^ 128)) := by
  rw [OpenReported, allows_all_v4_iff, allows_all_v6_iff, isOpenToWorld_iff h lan]
  by_cases hany : ∃ raw ∈ entries, SpelledAny raw
  · simp only [hany, implies_true, true_or]
  · simp only [hany, imp_false, false_or, not_or, not_not]

theorem openReported_iff_default :
    parse ["loopback".toList, "private".toList] = .ok ⟨[.loopback, .privateNets]⟩ ∧
      ((Acl.mk [.loopback, .privateNets]).withLan none).OpenReported := by
  have hparse : parse ["loopback".toList, "private".toList] =
      .ok ⟨[.loopback, .privateNets]⟩ := rfl
  refine ⟨hparse, (openReported_iff hparse none).mpr (.inr ⟨?_, ?_⟩)⟩
  · exact .first (by decide)
  · exact .first (by decide)

/-- `::/0` opens the IPv6 internet and `1.2.3.4/0` the IPv4 internet without a report. -/
theorem open_not_reported :
    (∃ acl, parse ["::/0".toList] = .ok acl ∧ ¬ (acl.withLan none).OpenReported) ∧
      ∃ acl, parse ["1.2.3.4/0".toList] = .ok acl ∧ ¬ (acl.withLan none).OpenReported := by
  constructor
  · refine ⟨⟨[.v6 0 0]⟩, rfl, fun h => ?_⟩
    have hopen : (Acl.mk [.v6 0 0]).isOpenToWorld = true := h (.inr fun a => rfl)
    exact absurd hopen (by decide)
  · refine ⟨⟨[.v4 (Ipv4Addr.ofOctets 1 2 3 4) 0]⟩, rfl, fun h => ?_⟩
    have hopen : (Acl.mk [.v4 (Ipv4Addr.ofOctets 1 2 3 4) 0]).isOpenToWorld = true :=
      h (.inl fun a => rfl)
    exact absurd hopen (by decide)

end Netwatch.Acl
