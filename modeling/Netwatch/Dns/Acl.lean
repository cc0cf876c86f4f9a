import Netwatch.RustStd.IpAddr
import Netwatch.RustStd.Mask

/-!
# Which clients may ask

The access list of `dns/acl.rs`: parsing, the decision `allows`, and `trust_subnet`, which
adds the LAN found in the routing table.

## Main definitions

- `Acl.parse` — keywords `loopback`, `private`, `any` and CIDR entries
- `Acl.allows` — the decision; an empty list means `private`
- `Acl.trustSubnet` — widen the `private` stance by the detected LAN
- `Acl.InSubnet` — membership in a subnet by quotient, what the mask test means
-/

namespace Netwatch

open RustStd

/-- One entry of `dns.allow_from`. -/
inductive Rule
  | loopback
  | privateNets
  | any
  | v4 (network : Ipv4Addr) (prefixLen : ℕ)
  | v6 (network : Ipv6Addr) (prefixLen : ℕ)
  deriving DecidableEq

structure Acl where
  rules : List Rule

inductive CidrError
  /-- `{s:?} has no / prefix length` -/
  | noSlash
  /-- `bad prefix length` -/
  | badPrefixLength
  /-- `bad address` -/
  | badAddress
  /-- `IPv4 prefix /{prefix} out of range` -/
  | v4OutOfRange (prefixLen : ℕ)
  /-- `IPv6 prefix /{prefix} out of range` -/
  | v6OutOfRange (prefixLen : ℕ)
  deriving DecidableEq

/-- `dns.allow_from entry {raw:?} is not a keyword (loopback/private/any) or a CIDR`. -/
structure AclError where
  raw : Str
  cause : CidrError
  deriving DecidableEq

def parseCidr (s : Str) : Except CidrError Rule :=
  match Str.splitOnce '/' s with
  | none => .error .noSlash
  | some (addr, len) =>
    match Str.parseU8 (Str.trim len) with
    | none => .error .badPrefixLength
    | some prefixLen =>
      match IpAddr.parse (Str.trim addr) with
      | none => .error .badAddress
      | some (.v4 network) =>
        if prefixLen ≤ 32 then .ok (.v4 network prefixLen) else .error (.v4OutOfRange prefixLen)
      | some (.v6 network) =>
        if prefixLen ≤ 128 then .ok (.v6 network prefixLen) else .error (.v6OutOfRange prefixLen)

def v4In (addr network : Ipv4Addr) (prefixLen : ℕ) : Bool :=
  if prefixLen = 0 then true
  else
    let mask := Mask.high 32 (32 - prefixLen)
    addr &&& mask == network &&& mask

def v6In (addr network : Ipv6Addr) (prefixLen : ℕ) : Bool :=
  if prefixLen = 0 then true
  else
    let mask := Mask.high 128 (128 - prefixLen)
    addr &&& mask == network &&& mask

def isPrivateV4 (a : Ipv4Addr) : Bool :=
  a.isPrivate || a.isLinkLocal || (a.octet 0 == 100 && 64 ≤ a.octet 1 && a.octet 1 < 128)

/-- Addresses that can only have come from a local network. -/
def isPrivate : IpAddr → Bool
  | .v4 a => isPrivateV4 a
  | .v6 a =>
    (a.segment 0 &&& 0xfe00) == 0xfc00 || (a.segment 0 &&& 0xffc0) == 0xfe80 ||
      a.toIpv4Mapped.any isPrivateV4

def Rule.allows (addr : IpAddr) : Rule → Bool
  | .any => true
  | .loopback => addr.isLoopback
  | .privateNets => isPrivate addr || addr.isLoopback
  | .v4 network prefixLen =>
    match addr with
    | .v4 a => v4In a network prefixLen
    | .v6 _ => false
  | .v6 network prefixLen =>
    match addr with
    | .v6 a => v6In a network prefixLen
    | .v4 _ => false

namespace Acl

def parseEntry (raw : Str) : Except AclError Rule :=
  let e := Str.toAsciiLowercase (Str.trim raw)
  if e = "loopback".toList ∨ e = "localhost".toList then .ok .loopback
  else if e = "private".toList ∨ e = "lan".toList then .ok .privateNets
  else if e = "any".toList ∨ e = "all".toList ∨ e = "0.0.0.0/0".toList then .ok .any
  else match parseCidr e with
    | .ok rule => .ok rule
    | .error cause => .error ⟨raw, cause⟩

def parse (entries : List Str) : Except AclError Acl :=
  (entries.mapM parseEntry).map Acl.mk

def allows (acl : Acl) (addr : IpAddr) : Bool :=
  if acl.rules.isEmpty then isPrivate addr || addr.isLoopback
  else acl.rules.any (Rule.allows addr)

/-- An empty rule set behaves as `private`, so it opts in too. -/
def privateStance (acl : Acl) : Bool := acl.rules.isEmpty || acl.rules.contains .privateNets

/-- Returns whether the list was widened, and the list. -/
def trustSubnet (acl : Acl) (network : Ipv4Addr) (prefixLen : ℕ) : Bool × Acl :=
  if !acl.privateStance then (false, acl)
  else if acl.allows (.v4 network) then (false, acl)
  else (true, ⟨acl.rules ++ [.v4 network prefixLen]⟩)

def isOpenToWorld (acl : Acl) : Bool := acl.rules.contains .any

/-- `a` lies in `network/prefixLen`: both have the same leading `prefixLen` bits. -/
def InSubnet (network : Ipv4Addr) (prefixLen : ℕ) (a : Ipv4Addr) : Prop :=
  a.toNat / 2 ^ (32 - prefixLen) = network.toNat / 2 ^ (32 - prefixLen)

instance (network : Ipv4Addr) (prefixLen : ℕ) (a : Ipv4Addr) :
    Decidable (InSubnet network prefixLen a) :=
  inferInstanceAs (Decidable (_ = _))

end Acl

theorem v4In_iff (a network : Ipv4Addr) (prefixLen : ℕ) :
    v4In a network prefixLen = true ↔ Acl.InSubnet network prefixLen a :=
  Mask.masked_iff a network prefixLen

theorem Acl.allows_of_rules_ne_nil {acl : Acl} (h : acl.rules ≠ []) (addr : IpAddr) :
    acl.allows addr = acl.rules.any (Rule.allows addr) := by
  simp [Acl.allows, h]

/-- A list that already had rules gains exactly the addresses of the appended one. -/
theorem Acl.allows_append {rules : List Rule} (h : rules ≠ []) (r : Rule) (addr : IpAddr) :
    (Acl.mk (rules ++ [r])).allows addr =
      ((Acl.mk rules).allows addr || Rule.allows addr r) := by
  rw [allows_of_rules_ne_nil (by simp), allows_of_rules_ne_nil h]
  simp

/-- The rules of a parsed list are the entries, each parsed by itself. -/
theorem Acl.forall₂_of_parse {entries : List Str} {acl : Acl} (h : Acl.parse entries = .ok acl) :
    List.Forall₂ (fun raw r => parseEntry raw = .ok r) entries acl.rules := by
  obtain ⟨rules⟩ := acl
  have hmap : entries.mapM parseEntry = .ok rules := by
    rw [parse] at h
    cases hm : entries.mapM parseEntry with
    | error e => simp [hm, Except.map] at h
    | ok rules' =>
      rw [hm] at h
      cases h
      rfl
  clear h
  induction entries generalizing rules with
  | nil =>
    cases hmap
    exact .nil
  | cons raw entries ih =>
    rw [List.mapM_cons] at hmap
    cases hraw : parseEntry raw with
    | error e => simp [hraw, bind, Except.bind] at hmap
    | ok r' =>
      cases hrest : entries.mapM parseEntry with
      | error e => simp [hraw, hrest, bind, Except.bind] at hmap
      | ok rest =>
        have hrules : rules = r' :: rest := by
          simpa [hraw, hrest, bind, Except.bind, pure, Except.pure] using hmap.symm
        rw [hrules]
        exact .cons hraw (ih rest hrest)

theorem Acl.mem_rules_iff {entries : List Str} {acl : Acl} (h : Acl.parse entries = .ok acl)
    (r : Rule) : r ∈ acl.rules ↔ ∃ raw ∈ entries, parseEntry raw = .ok r := by
  have hall := forall₂_of_parse h
  clear h
  generalize acl.rules = rules at hall ⊢
  induction hall with
  | nil => simp
  | @cons raw r' entries rest hraw _ ih => simp [hraw, ih, eq_comm]

theorem Acl.parseEntry_of_mem {entries : List Str} {acl : Acl} (h : Acl.parse entries = .ok acl)
    {raw : Str} (hraw : raw ∈ entries) : ∃ r, parseEntry raw = .ok r := by
  have hall := forall₂_of_parse h
  clear h
  generalize acl.rules = rules at hall
  induction hall with
  | nil => cases hraw
  | @cons raw' r' entries rest hraw' _ ih =>
    obtain rfl | hmem := List.mem_cons.mp hraw
    · exact ⟨r', hraw'⟩
    · exact ih hmem

theorem Acl.rules_ne_nil {entries : List Str} {acl : Acl} (h : Acl.parse entries = .ok acl)
    (hne : entries ≠ []) : acl.rules ≠ [] := by
  intro hnil
  have hlen := (forall₂_of_parse h).length_eq
  rw [hnil] at hlen
  exact hne (List.length_eq_zero_iff.mp hlen)

end Netwatch
