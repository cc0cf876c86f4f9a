import Netwatch.Dns.OpenWorld

/-!
# What a list of entries means

The meaning of `dns.allow_from` in terms of ranges of addresses, read off the texts of the
entries, beside the masks and bit tests that `allows` computes. The arithmetic of the masks is
done a second time with overflow as a failure.

## Main definitions

- `InRange` — the addresses of a CIDR entry
- `StandsFor` — what an entry stands for
- `Rule.allowsChecked` — `allows`, with checked arithmetic

## Main results

- `parseEntry_denotes` — one entry
- `denotes_of_parse` — every list that `parse` accepts
-/

namespace Netwatch

open RustStd

/-- The numeric value of `a` lies between the first and the last address of `n/p`. -/
def InRange {w : ℕ} (n : BitVec w) (p : ℕ) (a : BitVec w) : Prop :=
  n.toNat / 2 ^ (w - p) * 2 ^ (w - p) ≤ a.toNat ∧
    a.toNat ≤ n.toNat / 2 ^ (w - p) * 2 ^ (w - p) + (2 ^ (w - p) - 1)

theorem inRange_iff_inNet {w : ℕ} (n : BitVec w) (p : ℕ) (a : BitVec w) :
    InRange n p a ↔ InNet (n, p) a :=
  (Acl.inNet_iff_contains (n, p) a).symm

/-- 127/8 and `::1`. -/
def CoversLoopback : IpAddr → Prop
  | .v4 a => InRange (Ipv4Addr.ofOctets 127 0 0 0) 8 a
  | .v6 a => a = 1

/-- 10/8, 172.16/12, 192.168/16, 169.254/16 and 100.64/10. -/
def InPrivate4 (a : Ipv4Addr) : Prop :=
  InRange (Ipv4Addr.ofOctets 10 0 0 0) 8 a ∨ InRange (Ipv4Addr.ofOctets 172 16 0 0) 12 a ∨
    InRange (Ipv4Addr.ofOctets 192 168 0 0) 16 a ∨
    InRange (Ipv4Addr.ofOctets 169 254 0 0) 16 a ∨ InRange (Ipv4Addr.ofOctets 100 64 0 0) 10 a

/-- fc00::/7, fe80::/10 and the mapped images of the private IPv4 addresses. -/
def InPrivate6 (a : Ipv6Addr) : Prop :=
  InRange (Ipv6Addr.ofSegments [0xfc00, 0, 0, 0, 0, 0, 0, 0]) 7 a ∨
    InRange (Ipv6Addr.ofSegments [0xfe80, 0, 0, 0, 0, 0, 0, 0]) 10 a ∨
    ∃ b, InPrivate4 b ∧ a = b.toIpv6Mapped

def CoversPrivate (addr : IpAddr) : Prop :=
  CoversLoopback addr ∨
    match addr with
    | .v4 a => InPrivate4 a
    | .v6 a => InPrivate6 a

/-- The text is `n/p`, and the address lies in the range, which is one of its own family. -/
def CoversCidr (text : Str) (addr : IpAddr) : Prop :=
  ∃ x y p, text = x ++ '/' :: y ∧ '/' ∉ x ∧ Str.parseU8 (Str.trim y) = some p ∧
    match addr with
    | .v4 a => ∃ n, IpAddr.parse (Str.trim x) = some (.v4 n) ∧ p ≤ 32 ∧ InRange n p a
    | .v6 a => ∃ n, IpAddr.parse (Str.trim x) = some (.v6 n) ∧ p ≤ 128 ∧ InRange n p a

/-- What an entry stands for, by its text. -/
def StandsFor (raw : Str) (addr : IpAddr) : Prop :=
  let text := Str.toAsciiLowercase (Str.trim raw)
  if text = "loopback".toList ∨ text = "localhost".toList then CoversLoopback addr
  else if text = "private".toList ∨ text = "lan".toList then CoversPrivate addr
  else if text = "any".toList ∨ text = "all".toList ∨ text = "0.0.0.0/0".toList then True
  else CoversCidr text addr

/-! ### Checked arithmetic -/

def v4InChecked (addr network : Ipv4Addr) (prefixLen : ℕ) : Option Bool :=
  if prefixLen = 0 then some true
  else (Mask.checkedHigh 32 prefixLen).map fun mask => addr &&& mask == network &&& mask

def v6InChecked (addr network : Ipv6Addr) (prefixLen : ℕ) : Option Bool :=
  if prefixLen = 0 then some true
  else (Mask.checkedHigh 128 prefixLen).map fun mask => addr &&& mask == network &&& mask

/-- Nothing if a subtraction or a shift overflows. -/
def Rule.allowsChecked (addr : IpAddr) : Rule → Option Bool
  | .v4 network prefixLen =>
    match addr with
    | .v4 a => v4InChecked a network prefixLen
    | .v6 _ => some false
  | .v6 network prefixLen =>
    match addr with
    | .v6 a => v6InChecked a network prefixLen
    | .v4 _ => some false
  | r => some (r.allows addr)

/-- The prefix fits its address family. -/
def Rule.PrefixFits : Rule → Prop
  | .v4 _ prefixLen => prefixLen ≤ 32
  | .v6 _ prefixLen => prefixLen ≤ 128
  | _ => True

theorem Rule.allowsChecked_eq_some {r : Rule} (h : r.PrefixFits) (addr : IpAddr) :
    r.allowsChecked addr = some (r.allows addr) := by
  cases r with
  | loopback => rfl
  | privateNets => rfl
  | any => rfl
  | v4 network prefixLen =>
    cases addr with
    | v6 a => rfl
    | v4 a =>
      rw [allowsChecked, allows, v4InChecked, v4In]
      by_cases hzero : prefixLen = 0
      · rw [if_pos hzero, if_pos hzero]
      · rw [if_neg hzero, if_neg hzero, Mask.checkedHigh_eq_some (Nat.pos_of_ne_zero hzero) h]
        rfl
  | v6 network prefixLen =>
    cases addr with
    | v4 a => rfl
    | v6 a =>
      rw [allowsChecked, allows, v6InChecked, v6In]
      by_cases hzero : prefixLen = 0
      · rw [if_pos hzero, if_pos hzero]
      · rw [if_neg hzero, if_neg hzero, Mask.checkedHigh_eq_some (Nat.pos_of_ne_zero hzero) h]
        rfl

/-! ### The keywords -/

theorem isLoopback_iff (addr : IpAddr) : addr.isLoopback = true ↔ CoversLoopback addr := by
  cases addr with
  | v4 a => exact (v4_isLoopback_iff a).trans (inRange_iff_inNet _ 8 a).symm
  | v6 a => exact beq_iff_eq

theorem isPrivateV4_iff_inPrivate4 (a : Ipv4Addr) : isPrivateV4 a = true ↔ InPrivate4 a := by
  simp only [isPrivateV4_iff, privateNets4, List.mem_cons, List.not_mem_nil, or_false,
    exists_eq_or_imp, exists_eq_left, ← inRange_iff_inNet, InPrivate4]

theorem isPrivate_v6_iff_inPrivate6 (a : Ipv6Addr) :
    isPrivate (.v6 a) = true ↔ InPrivate6 a := by
  have hmapped : (∃ net ∈ privateNets4.map mapped, InNet net a) ↔
      ∃ b, InPrivate4 b ∧ a = b.toIpv6Mapped := by
    rw [← exists_mapped_iff, Option.any_eq_true]
    simp only [Ipv6Addr.toIpv4Mapped_eq_some_iff, isPrivateV4_iff_inPrivate4, and_comm]
  rw [isPrivate_v6_iff, privateNets6]
  simp only [List.mem_cons (a := _) (b := _), exists_eq_or_imp, hmapped]
  rw [InPrivate6, inRange_iff_inNet, inRange_iff_inNet]
  exact Iff.rfl

theorem isPrivate_or_isLoopback_iff (addr : IpAddr) :
    (isPrivate addr || addr.isLoopback) = true ↔ CoversPrivate addr := by
  rw [Bool.or_eq_true, isLoopback_iff, or_comm]
  cases addr with
  | v4 a => exact or_congr_right (isPrivateV4_iff_inPrivate4 a)
  | v6 a => exact or_congr_right (isPrivate_v6_iff_inPrivate6 a)

/-! ### Entries -/

theorem parseCidr_eq_ok {e : Str} {r : Rule} (h : parseCidr e = .ok r) :
    ∃ x y p, e = x ++ '/' :: y ∧ '/' ∉ x ∧ Str.parseU8 (Str.trim y) = some p ∧
      ((∃ n, IpAddr.parse (Str.trim x) = some (.v4 n) ∧ p ≤ 32 ∧ r = .v4 n p) ∨
        ∃ n, IpAddr.parse (Str.trim x) = some (.v6 n) ∧ p ≤ 128 ∧ r = .v6 n p) := by
  unfold parseCidr at h
  split at h
  · cases h
  · next x y hsplit =>
    obtain ⟨he, hnot⟩ := Str.splitOnce_eq_some_iff.mp hsplit
    split at h
    · cases h
    · next p hp =>
      refine ⟨x, y, p, he, hnot, hp, ?_⟩
      split at h
      · cases h
      · next n hn =>
        obtain ⟨hle, hr⟩ : p ≤ 32 ∧ r = .v4 n p := by
          split at h
          · next hle => exact ⟨hle, (Except.ok.inj h).symm⟩
          · cases h
        exact .inl ⟨n, hn, hle, hr⟩
      · next n hn =>
        obtain ⟨hle, hr⟩ : p ≤ 128 ∧ r = .v6 n p := by
          split at h
          · next hle => exact ⟨hle, (Except.ok.inj h).symm⟩
          · cases h
        exact .inr ⟨n, hn, hle, hr⟩

/-- A text is cut at its first slash, so it is read in one way. -/
theorem coversCidr_iff {x y : Str} {p : ℕ} (hx : '/' ∉ x)
    (hp : Str.parseU8 (Str.trim y) = some p) (addr : IpAddr) :
    CoversCidr (x ++ '/' :: y) addr ↔
      match addr with
      | .v4 a => ∃ n, IpAddr.parse (Str.trim x) = some (.v4 n) ∧ p ≤ 32 ∧ InRange n p a
      | .v6 a => ∃ n, IpAddr.parse (Str.trim x) = some (.v6 n) ∧ p ≤ 128 ∧ InRange n p a := by
  constructor
  · rintro ⟨x', y', p', heq, hx', hp', hin⟩
    have hsplit : Str.splitOnce '/' (x ++ '/' :: y) = some (x, y) :=
      Str.splitOnce_eq_some_iff.mpr ⟨rfl, hx⟩
    rw [heq, Str.splitOnce_eq_some_iff.mpr ⟨rfl, hx'⟩] at hsplit
    obtain ⟨rfl, rfl⟩ := Prod.mk.inj (Option.some.inj hsplit)
    obtain rfl : p = p' := Option.some.inj (hp.symm.trans hp')
    exact hin
  · exact fun hin => ⟨x, y, p, rfl, hx, hp, hin⟩

theorem parseCidr_denotes {e : Str} {r : Rule} (h : parseCidr e = .ok r) (addr : IpAddr) :
    r.allows addr = true ↔ CoversCidr e addr := by
  obtain ⟨x, y, p, rfl, hx, hp, ⟨n, hn, hle, rfl⟩ | ⟨n, hn, hle, rfl⟩⟩ := parseCidr_eq_ok h
  · rw [coversCidr_iff hx hp, hn]
    cases addr with
    | v4 a =>
      rw [Rule.allows, v4In_iff_inNet, ← inRange_iff_inNet]
      simp [hle]
    | v6 a => simp [Rule.allows]
  · rw [coversCidr_iff hx hp, hn]
    cases addr with
    | v4 a => simp [Rule.allows]
    | v6 a =>
      rw [Rule.allows, v6In_iff_inNet, ← inRange_iff_inNet]
      simp [hle]

theorem prefixFits_of_parseCidr {e : Str} {r : Rule} (h : parseCidr e = .ok r) :
    r.PrefixFits := by
  obtain ⟨x, y, p, -, -, -, ⟨n, -, hle, rfl⟩ | ⟨n, -, hle, rfl⟩⟩ := parseCidr_eq_ok h
  · exact hle
  · exact hle

/-- An entry allows the addresses that its text stands for, and its prefix fits. -/
theorem Acl.parseEntry_denotes {raw : Str} {r : Rule} (h : parseEntry raw = .ok r) :
    (∀ addr, r.allows addr = true ↔ StandsFor raw addr) ∧ r.PrefixFits := by
  rw [parseEntry] at h
  simp only [StandsFor]
  -- the entry is read as trimmed and in lower case, as its meaning is
  generalize Str.toAsciiLowercase (Str.trim raw) = text at h ⊢
  split at h
  · next hloopback =>
    cases h
    refine ⟨fun addr => ?_, trivial⟩
    rw [if_pos hloopback]
    exact isLoopback_iff addr
  · next hloopback =>
    split at h
    · next hprivate =>
      cases h
      refine ⟨fun addr => ?_, trivial⟩
      rw [if_neg hloopback, if_pos hprivate]
      exact isPrivate_or_isLoopback_iff addr
    · next hprivate =>
      split at h
      · next hany =>
        cases h
        refine ⟨fun addr => ?_, trivial⟩
        rw [if_neg hloopback, if_neg hprivate, if_pos hany]
        exact iff_of_true rfl trivial
      · next hany =>
        cases hcidr : parseCidr text with
        | error cause =>
          rw [hcidr] at h
          cases h
        | ok rule =>
          rw [hcidr] at h
          cases h
          refine ⟨fun addr => ?_, prefixFits_of_parseCidr hcidr⟩
          rw [if_neg hloopback, if_neg hprivate, if_neg hany]
          exact parseCidr_denotes hcidr addr

namespace Acl

/-- The accepted entries allow exactly the addresses they stand for, no entry at all the private
ones, and no mask overflows. -/
theorem denotes_of_parse {entries : List Str} {acl : Acl} (h : parse entries = .ok acl) :
    (∀ addr, acl.allows addr = true ↔
      if entries = [] then CoversPrivate addr else ∃ raw ∈ entries, StandsFor raw addr) ∧
    ∀ r ∈ acl.rules, ∀ addr, r.allowsChecked addr = some (r.allows addr) := by
  constructor
  · intro addr
    by_cases hnil : entries = []
    · rw [if_pos hnil]
      subst hnil
      cases h
      exact isPrivate_or_isLoopback_iff addr
    · rw [if_neg hnil, allows_of_rules_ne_nil (rules_ne_nil h hnil), List.any_eq_true]
      constructor
      · rintro ⟨r, hr, hallows⟩
        obtain ⟨raw, hraw, hparse⟩ := (mem_rules_iff h r).mp hr
        exact ⟨raw, hraw, ((parseEntry_denotes hparse).1 addr).mp hallows⟩
      · rintro ⟨raw, hraw, hcovers⟩
        obtain ⟨r, hparse⟩ := parseEntry_of_mem h hraw
        exact ⟨r, (mem_rules_iff h r).mpr ⟨raw, hraw, hparse⟩,
          ((parseEntry_denotes hparse).1 addr).mpr hcovers⟩
  · intro r hr addr
    obtain ⟨raw, -, hparse⟩ := (mem_rules_iff h r).mp hr
    exact Rule.allowsChecked_eq_some (parseEntry_denotes hparse).2 addr

def lanAndDocs : List Str := ["192.168.50.0/24".toList, "2001:db8::/32".toList]

def lanAndDocsAcl : Acl :=
  ⟨[.v4 (Ipv4Addr.ofOctets 192 168 50 0) 24,
    .v6 (Ipv6Addr.ofSegments [0x2001, 0xdb8, 0, 0, 0, 0, 0, 0]) 32]⟩

theorem denotes_of_parse_lanAndDocs :
    lanAndDocsAcl.allows (.v4 (Ipv4Addr.ofOctets 192 168 50 255)) = true ∧
      ∃ raw ∈ lanAndDocs, StandsFor raw (.v4 (Ipv4Addr.ofOctets 192 168 50 255)) := by
  have hparse : parse lanAndDocs = .ok lanAndDocsAcl := by rfl
  have hallows : lanAndDocsAcl.allows (.v4 (Ipv4Addr.ofOctets 192 168 50 255)) = true := by decide
  exact ⟨hallows, ((denotes_of_parse hparse).1 _).mp hallows⟩

end Acl

end Netwatch
