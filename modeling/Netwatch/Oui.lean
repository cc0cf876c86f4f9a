import Netwatch.RustStd.HashMap
import Netwatch.RustStd.Str

/-!
# MAC addresses

`oui.rs`: the canonical form of a MAC address, the flag that marks it as randomised and the
vendor its first three octets stand for. The table itself is data; which rows it has is left
open.

## Main results

- `normalize_idem` — the canonical form is its own canonical form
-/

namespace Netwatch

open RustStd

namespace Oui

def hexDigits : Str := "0123456789abcdefABCDEF".toList

/-- `char::is_ascii_hexdigit` -/
def isHexdigit (c : Char) : Bool := hexDigits.contains c

def hexOf (mac : Str) : Str := mac.filter isHexdigit

/-- The value of a hexadecimal digit, as `from_str_radix` reads it. -/
def digitValue (c : Char) : ℕ :=
  if c.toNat ≤ 57 then c.toNat - 48 else if c.toNat ≤ 70 then c.toNat - 55 else c.toNat - 87

/-- The locally administered bit of the first octet. -/
def isRandomized (mac : Str) : Bool :=
  match hexOf mac with
  | hi :: lo :: _ => (digitValue hi * 16 + digitValue lo) / 2 % 2 == 1
  | _ => false

/-- The twelve digits in pairs, separated by colons. -/
def colonPairs (lower : Str) : Str :=
  Str.join [':'] ((List.range 6).map fun i => (lower.drop (i * 2)).take 2)

/-- Canonical lowercase colon-separated form, or `none` if it is not a MAC. All-zero
addresses appear in incomplete ARP entries. -/
def normalize (mac : Str) : Option Str :=
  let hex := hexOf mac
  if hex.length ≠ 12 then none
  else if hex.all (· == '0') then none
  else some (colonPairs (Str.toAsciiLowercase hex))

end Oui

/-- Vendors by the six digits of a prefix, in upper case. -/
structure OuiDb where
  map : HashMap Str Str

def OuiDb.lookup (db : OuiDb) (mac : Str) : Option Str :=
  let hex := (Oui.hexOf mac).map Char.toUpper
  if hex.length < 6 then none else db.map.lookup (hex.take 6)

namespace Oui

example : normalize "B8-27-EB-11-22-33".toList = some "b8:27:eb:11:22:33".toList := by decide
example : isRandomized "a2:11:22:33:44:55".toList = true := by decide

theorem isHexdigit_toLower {c : Char} (h : isHexdigit c = true) :
    isHexdigit c.toLower = true ∧ c.toLower.toLower = c.toLower ∧
      (c.toLower == '0') = (c == '0') := by
  have hall : hexDigits.all (fun c => isHexdigit c.toLower && c.toLower.toLower == c.toLower &&
      (c.toLower == '0') == (c == '0')) = true := by decide
  have hc := List.all_eq_true.mp hall c (List.contains_iff_mem.mp h)
  simpa only [Bool.and_eq_true, beq_iff_eq, and_assoc] using hc

theorem hexOf_colonPairs {lower : Str} (hlen : lower.length = 12)
    (hhex : ∀ c ∈ lower, isHexdigit c = true) : hexOf (colonPairs lower) = lower := by
  match lower, hlen with
  | [a, b, c, d, e, f, g, h, i, j, k, l], _ =>
    simp only [List.forall_mem_cons] at hhex
    obtain ⟨ha, hb, hc, hd, he, hf, hg, hh, hi, hj, hk, hl, -⟩ := hhex
    have hsep : isHexdigit ':' = false := by decide
    show hexOf [a, b, ':', c, d, ':', e, f, ':', g, h, ':', i, j, ':', k, l] = _
    simp only [hexOf, List.filter_cons, ha, hb, hc, hd, he, hf, hg, hh, hi, hj, hk, hl, hsep,
      if_true, if_false, Bool.false_eq_true, List.filter_nil]

theorem normalize_idem {mac canonical : Str} (h : normalize mac = some canonical) :
    normalize canonical = some canonical := by
  rw [normalize] at h
  split at h
  · cases h
  · next hlen =>
    split at h
    · cases h
    · next hzero =>
      have hhex : ∀ c ∈ hexOf mac, isHexdigit c = true := fun c hc => (List.mem_filter.mp hc).2
      have hlower : ∀ c ∈ Str.toAsciiLowercase (hexOf mac), isHexdigit c = true := by
        intro c hc
        obtain ⟨d, hd, rfl⟩ := List.mem_map.mp hc
        exact (isHexdigit_toLower (hhex d hd)).1
      have hlowerLen : (Str.toAsciiLowercase (hexOf mac)).length = 12 := by
        rw [Str.toAsciiLowercase, List.length_map]
        omega
      have hlowerIdem : Str.toAsciiLowercase (Str.toAsciiLowercase (hexOf mac)) =
          Str.toAsciiLowercase (hexOf mac) := by
        rw [Str.toAsciiLowercase, Str.toAsciiLowercase, List.map_map]
        exact List.map_congr_left fun c hc => (isHexdigit_toLower (hhex c hc)).2.1
      have hlowerZero : (Str.toAsciiLowercase (hexOf mac)).all (· == '0') =
          (hexOf mac).all (· == '0') := by
        rw [Str.toAsciiLowercase, List.all_map, Bool.eq_iff_iff, List.all_eq_true,
          List.all_eq_true]
        refine forall₂_congr fun c hc => ?_
        rw [Function.comp_apply, (isHexdigit_toLower (hhex c hc)).2.2]
      cases h
      rw [normalize, hexOf_colonPairs hlowerLen hlower, if_neg (by omega), hlowerZero,
        if_neg hzero, hlowerIdem]

end Oui

end Netwatch
