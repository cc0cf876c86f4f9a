import Mathlib.Data.BitVec
import Netwatch.RustStd.Str

/-!
# Internet addresses

`Ipv4Addr` and `Ipv6Addr` as bit vectors, their classification predicates, the parser
behind `str::parse::<IpAddr>` and the `Display` texts.

## Design notes

The parser functions take the remaining input and return the value with what is left, or
`none` with nothing consumed, like `read_atomically` in `core::net::parser`.
-/

namespace RustStd

/-- `std::net::Ipv4Addr`, as its `u32` value. -/
abbrev Ipv4Addr := BitVec 32

/-- `std::net::Ipv6Addr`, as its `u128` value. -/
abbrev Ipv6Addr := BitVec 128

inductive IpAddr
  | v4 (a : Ipv4Addr)
  | v6 (a : Ipv6Addr)
  deriving DecidableEq, Repr

structure SocketAddr where
  ip : IpAddr
  port : UInt16
  deriving DecidableEq

namespace Ipv4Addr

def octet (a : Ipv4Addr) (i : ℕ) : ℕ := a.toNat / 256 ^ (3 - i) % 256

def ofOctets (a b c d : ℕ) : Ipv4Addr := BitVec.ofNat 32 (((a * 256 + b) * 256 + c) * 256 + d)

/-- `Ipv4Addr::is_private`: 10/8, 172.16/12 and 192.168/16. -/
def isPrivate (a : Ipv4Addr) : Bool :=
  a.octet 0 == 10 || (a.octet 0 == 172 && 16 ≤ a.octet 1 && a.octet 1 ≤ 31) ||
    (a.octet 0 == 192 && a.octet 1 == 168)

def isLinkLocal (a : Ipv4Addr) : Bool := a.octet 0 == 169 && a.octet 1 == 254

def isLoopback (a : Ipv4Addr) : Bool := a.octet 0 == 127

/-- `Ipv4Addr::to_ipv6_mapped`: `::ffff:a` -/
def toIpv6Mapped (a : Ipv4Addr) : Ipv6Addr := BitVec.ofNat 128 (0xffff * 2 ^ 32 + a.toNat)

def toText (a : Ipv4Addr) : Str :=
  Str.join ['.'] ((List.range 4).map fun i => Nat.toDigits 10 (a.octet i))

end Ipv4Addr

namespace Ipv6Addr

def segment (a : Ipv6Addr) (i : ℕ) : ℕ := a.toNat / 65536 ^ (7 - i) % 65536

def ofSegments (segs : List ℕ) : Ipv6Addr := BitVec.ofNat 128 (segs.foldl (· * 65536 + ·) 0)

def isLoopback (a : Ipv6Addr) : Bool := a == 1

def toIpv4Mapped (a : Ipv6Addr) : Option Ipv4Addr :=
  if a.toNat / 2 ^ 32 = 0xffff then some (BitVec.ofNat 32 a.toNat) else none

/-- The longest run of zero segments, the first one of that length: `(start, len)`. -/
def longestZeroes (a : Ipv6Addr) : ℕ × ℕ :=
  let go : (ℕ × ℕ) × (ℕ × ℕ) → ℕ → (ℕ × ℕ) × (ℕ × ℕ) := fun (longest, current) i =>
    if a.segment i = 0 then
      let current := (if current.2 = 0 then i else current.1, current.2 + 1)
      (if current.2 > longest.2 then current else longest, current)
    else (longest, (0, 0))
  ((List.range 8).foldl go ((0, 0), (0, 0))).1

def toText (a : Ipv6Addr) : Str :=
  let segments := (List.range 8).map a.segment
  let fmtSubslice (chunk : List ℕ) : Str := Str.join [':'] (chunk.map (Nat.toDigits 16))
  match a.toIpv4Mapped with
  | some mapped => "::ffff:".toList ++ mapped.toText
  | none =>
    let (start, len) := a.longestZeroes
    if len > 1 then
      fmtSubslice (segments.take start) ++ "::".toList ++ fmtSubslice (segments.drop (start + len))
    else fmtSubslice segments

end Ipv6Addr

theorem Ipv4Addr.toNat_toIpv6Mapped (a : Ipv4Addr) :
    a.toIpv6Mapped.toNat = 0xffff * 2 ^ 32 + a.toNat := by
  have ha := a.isLt
  rw [toIpv6Mapped, BitVec.toNat_ofNat, Nat.mod_eq_of_lt (by omega)]

theorem Ipv6Addr.toIpv4Mapped_eq_some_iff {a : Ipv6Addr} {b : Ipv4Addr} :
    a.toIpv4Mapped = some b ↔ a = b.toIpv6Mapped := by
  have hb := b.isLt
  rw [toIpv4Mapped, ← BitVec.toNat_inj, Ipv4Addr.toNat_toIpv6Mapped]
  split
  · next hhigh =>
    rw [Option.some.injEq, ← BitVec.toNat_inj, BitVec.toNat_ofNat]
    omega
  · next hhigh =>
    refine iff_of_false (by simp) fun h => hhigh ?_
    omega

namespace IpAddr

def isLoopback : IpAddr → Bool
  | .v4 a => a.isLoopback
  | .v6 a => a.isLoopback

def isIpv6 : IpAddr → Bool
  | .v4 _ => false
  | .v6 _ => true

def toText : IpAddr → Str
  | .v4 a => a.toText
  | .v6 a => a.toText

def toDigit (radix : ℕ) (c : Char) : Option ℕ :=
  let d :=
    if c.isDigit then c.toNat - 48
    else if 97 ≤ c.toNat ∧ c.toNat ≤ 102 then c.toNat - 87
    else if 65 ≤ c.toNat ∧ c.toNat ≤ 70 then c.toNat - 55
    else 16
  if d < radix then some d else none

/-- `Parser::read_number`, bounded by `limit` (255 or 65535). -/
def readNumber (radix maxDigits limit : ℕ) (allowZeroPrefix : Bool) (s : Str) :
    Option (ℕ × Str) :=
  let digits := s.takeWhile fun c => (toDigit radix c).isSome
  let rest := s.drop digits.length
  let value := (digits.filterMap (toDigit radix)).foldl (· * radix + ·) 0
  if digits.length = 0 ∨ digits.length > maxDigits then none
  else if allowZeroPrefix = false ∧ s.head? = some '0' ∧ digits.length > 1 then none
  else if value > limit then none
  else some (value, rest)

def readGivenChar (c : Char) (s : Str) : Option Str := Str.stripPrefix [c] s

/-- `Parser::read_separator`: no separator stands before the first item. -/
def readSeparator {α : Type} (sep : Char) (index : ℕ) (inner : Str → Option (α × Str))
    (s : Str) : Option (α × Str) :=
  if index > 0 then (readGivenChar sep s).bind inner else inner s

def readIpv4Addr (s : Str) : Option (Ipv4Addr × Str) := do
  let octet := readNumber 10 3 255 false
  let (a, s) ← readSeparator '.' 0 octet s
  let (b, s) ← readSeparator '.' 1 octet s
  let (c, s) ← readSeparator '.' 2 octet s
  let (d, s) ← readSeparator '.' 3 octet s
  pure (Ipv4Addr.ofOctets a b c d, s)

/-- `read_groups`: the groups from index `i` on, `left` of them at most, with whether they
end in an embedded IPv4 address. -/
def readGroups (i : ℕ) : (left : ℕ) → Str → (List ℕ × Bool) × Str
  | 0, s => (([], false), s)
  | left + 1, s =>
    let embedded := if left > 0 then readSeparator ':' i readIpv4Addr s else none
    match embedded with
    | some (addr, s) => (([addr.toNat / 65536, addr.toNat % 65536], true), s)
    | none =>
      match readSeparator ':' i (readNumber 16 4 65535 true) s with
      | none => (([], false), s)
      | some (g, s) =>
        let ((groups, embeddedLast), s) := readGroups (i + 1) left s
        ((g :: groups, embeddedLast), s)

def readIpv6Addr (s : Str) : Option (Ipv6Addr × Str) := do
  let ((head, headIpv4), s) := readGroups 0 8 s
  if head.length = 8 then
    pure (Ipv6Addr.ofSegments head, s)
  else if headIpv4 then
    none
  else
    let s ← readGivenChar ':' s
    let s ← readGivenChar ':' s
    let ((tail, _), s) := readGroups 0 (8 - (head.length + 1)) s
    let zeroes := List.replicate (8 - head.length - tail.length) 0
    pure (Ipv6Addr.ofSegments (head ++ zeroes ++ tail), s)

/-- `str::parse::<Ipv4Addr>`: the whole text has to be consumed. -/
def parseIpv4 (s : Str) : Option Ipv4Addr :=
  match readIpv4Addr s with
  | some (a, []) => some a
  | _ => none

/-- `str::parse::<IpAddr>`: the whole text has to be consumed. -/
def parse (s : Str) : Option IpAddr :=
  let result := match readIpv4Addr s with
    | some (a, rest) => some (IpAddr.v4 a, rest)
    | none => (readIpv6Addr s).map fun (a, rest) => (IpAddr.v6 a, rest)
  match result with
  | some (a, []) => some a
  | _ => none

example : parse "192.168.1.20".toList = some (.v4 (Ipv4Addr.ofOctets 192 168 1 20)) := by decide
example : parse "fe80::1:2".toList =
    some (.v6 (Ipv6Addr.ofSegments [0xfe80, 0, 0, 0, 0, 0, 1, 2])) := by
  decide

end IpAddr

end RustStd
