import Netwatch.RustStd.IpAddr

/-!
# The text of an IPv4 address

An address is recovered from its `Display` text, so different addresses have different texts.

## Main results

- `parseIpv4_toText` — the round trip
- `toText_inj` — equal texts, equal addresses
- `parse_eq_none_iff` — without a colon, only an IPv4 address is an address
-/

namespace RustStd

namespace IpAddr

/-- What `read_number` checks of the digits of an octet. -/
structure OctetDigits (n : ℕ) (digits : Str) : Prop where
  isDigit : digits.all (fun c => (toDigit 10 c).isSome) = true
  length : digits.length ≠ 0 ∧ digits.length ≤ 3
  noZero : digits.head? ≠ some '0' ∨ digits.length = 1
  value : (digits.filterMap (toDigit 10)).foldl (· * 10 + ·) 0 = n

instance (n : ℕ) (digits : Str) : Decidable (OctetDigits n digits) :=
  decidable_of_iff
    (digits.all (fun c => (toDigit 10 c).isSome) = true ∧
      (digits.length ≠ 0 ∧ digits.length ≤ 3) ∧
      (digits.head? ≠ some '0' ∨ digits.length = 1) ∧
      (digits.filterMap (toDigit 10)).foldl (· * 10 + ·) 0 = n)
    ⟨fun ⟨h, h', h'', h'''⟩ => ⟨h, h', h'', h'''⟩, fun ⟨h, h', h'', h'''⟩ => ⟨h, h', h'', h'''⟩⟩

theorem octetDigits_toDigits : ∀ n < 256, OctetDigits n (Nat.toDigits 10 n) := by decide +kernel

theorem readNumber_toDigits {n : ℕ} (hn : n < 256) {rest : Str}
    (hrest : ∀ c, rest.head? = some c → toDigit 10 c = none) :
    readNumber 10 3 255 false (Nat.toDigits 10 n ++ rest) = some (n, rest) := by
  have h := octetDigits_toDigits n hn
  generalize Nat.toDigits 10 n = digits at h
  have hall : ∀ c ∈ digits, (toDigit 10 c).isSome = true := List.all_eq_true.mp h.isDigit
  have hstop : rest.takeWhile (fun c => (toDigit 10 c).isSome) = [] := by
    cases rest with
    | nil => rfl
    | cons c rest => simp [hrest c rfl]
  have htake : (digits ++ rest).takeWhile (fun c => (toDigit 10 c).isSome) = digits := by
    rw [List.takeWhile_append_of_pos hall, hstop, List.append_nil]
  -- no octet is printed with a leading zero, which the parser would refuse
  have hhead : ¬ ((digits ++ rest).head? = some '0' ∧ digits.length > 1) := by
    rintro ⟨hzero, hlong⟩
    have hne : digits ≠ [] := by
      intro hnil
      exact h.length.1 (by rw [hnil]; rfl)
    rw [List.head?_append_of_ne_nil _ hne] at hzero
    obtain hno | hone := h.noZero
    · exact hno hzero
    · omega
  have hlength := h.length
  simp only [readNumber, htake, h.value, List.drop_left, true_and]
  rw [if_neg (by omega), if_neg hhead, if_neg (by omega)]

theorem readIpv4Addr_digits {a b c d : ℕ} (ha : a < 256) (hb : b < 256) (hc : c < 256)
    (hd : d < 256) :
    readIpv4Addr (Nat.toDigits 10 a ++ '.' :: (Nat.toDigits 10 b ++ '.' ::
      (Nat.toDigits 10 c ++ '.' :: Nat.toDigits 10 d))) =
      some (Ipv4Addr.ofOctets a b c d, []) := by
  have hdot : ∀ rest : Str, ∀ c, ('.' :: rest).head? = some c → toDigit 10 c = none := by
    intro rest c h
    cases h
    decide
  have hsep : ∀ (i : ℕ) (rest : Str), 0 < i →
      readSeparator '.' i (readNumber 10 3 255 false) ('.' :: rest) =
        readNumber 10 3 255 false rest := by
    intro i rest hi
    have hgiven : readGivenChar '.' ('.' :: rest) = some rest :=
      Str.stripPrefix_append ['.'] rest
    rw [readSeparator, if_pos hi, hgiven]
    rfl
  have hlast : readNumber 10 3 255 false (Nat.toDigits 10 d) = some (d, []) := by
    have hnil := @readNumber_toDigits d hd [] (fun c h => nomatch h)
    rwa [List.append_nil] at hnil
  have hfirst : ∀ s, readSeparator '.' 0 (readNumber 10 3 255 false) s =
      readNumber 10 3 255 false s := fun s => rfl
  simp only [readIpv4Addr, hfirst, readNumber_toDigits ha (hdot _), Option.bind_eq_bind,
    Option.bind_some, hsep 1 _ Nat.one_pos, readNumber_toDigits hb (hdot _), hsep 2 _ Nat.two_pos,
    readNumber_toDigits hc (hdot _), hsep 3 _ (Nat.succ_pos 2), hlast]
  rfl

/-! ### Texts without a colon -/

theorem readGivenChar_eq_none {c : Char} {s : Str} (h : c ∉ s) : readGivenChar c s = none :=
  Str.stripPrefix_eq_none (List.mem_singleton_self c) h

theorem readSeparator_eq_none {α : Type} {sep : Char} {s : Str} (h : sep ∉ s) (i : ℕ)
    (inner : Str → Option (α × Str)) : readSeparator sep (i + 1) inner s = none := by
  rw [readSeparator, if_pos i.succ_pos, readGivenChar_eq_none h]
  rfl

theorem readGroups_succ_of_no_colon {s : Str} (h : ':' ∉ s) (i left : ℕ) :
    readGroups (i + 1) left s = (([], false), s) := by
  cases left with
  | zero => rfl
  | succ left => simp [readGroups, readSeparator_eq_none h]

theorem suffix_of_readNumber {radix maxDigits limit : ℕ} {allowZeroPrefix : Bool} {s rest : Str}
    {n : ℕ} (h : readNumber radix maxDigits limit allowZeroPrefix s = some (n, rest)) :
    rest <:+ s := by
  rw [readNumber] at h
  split at h
  · cases h
  · split at h
    · cases h
    · split at h
      · cases h
      · rw [← (Prod.mk.inj (Option.some.inj h)).2]
        exact List.drop_suffix _ s

/-- Two groups at most are read, and eight or a `::` are needed. -/
theorem readIpv6Addr_eq_none {s : Str} (h : ':' ∉ s) : readIpv6Addr s = none := by
  have hzero : ∀ {α : Type} (inner : Str → Option (α × Str)),
      readSeparator ':' 0 inner s = inner s := fun inner => rfl
  rw [readIpv6Addr, readGroups, hzero, hzero]
  cases readIpv4Addr s with
  | some found => rfl
  | none =>
    cases hread : readNumber 16 4 65535 true s with
    | none => simp [readGivenChar_eq_none h]
    | some group =>
      obtain ⟨g, rest⟩ := group
      have hrest : ':' ∉ rest := fun hin => h ((suffix_of_readNumber hread).subset hin)
      simp [readGroups_succ_of_no_colon hrest, readGivenChar_eq_none hrest]

theorem parse_eq_none_iff {s : Str} (h : ':' ∉ s) : parse s = none ↔ parseIpv4 s = none := by
  rw [parse, parseIpv4, readIpv6Addr_eq_none h]
  cases readIpv4Addr s with
  | none => simp
  | some found =>
    obtain ⟨a, rest⟩ := found
    cases rest <;> simp

end IpAddr

namespace Ipv4Addr

theorem octet_lt (a : Ipv4Addr) (i : ℕ) : a.octet i < 256 := Nat.mod_lt _ (by decide)

theorem ofOctets_octet (a : Ipv4Addr) :
    ofOctets (a.octet 0) (a.octet 1) (a.octet 2) (a.octet 3) = a := by
  have ha := a.isLt
  apply BitVec.eq_of_toNat_eq
  rw [ofOctets, BitVec.toNat_ofNat]
  simp only [octet, Nat.reduceSub, Nat.reducePow, Nat.div_one]
  omega

theorem parseIpv4_toText (a : Ipv4Addr) : IpAddr.parseIpv4 a.toText = some a := by
  have htext : a.toText = Nat.toDigits 10 (a.octet 0) ++ '.' :: (Nat.toDigits 10 (a.octet 1) ++
      '.' :: (Nat.toDigits 10 (a.octet 2) ++ '.' :: Nat.toDigits 10 (a.octet 3))) := by
    simp [toText, Str.join, List.range_succ, List.intercalate]
  rw [IpAddr.parseIpv4, htext, IpAddr.readIpv4Addr_digits (a.octet_lt 0) (a.octet_lt 1)
    (a.octet_lt 2) (a.octet_lt 3), ofOctets_octet]

theorem toText_inj {a b : Ipv4Addr} (h : a.toText = b.toText) : a = b := by
  have hparse := congrArg IpAddr.parseIpv4 h
  rw [parseIpv4_toText, parseIpv4_toText] at hparse
  exact Option.some.inj hparse

end Ipv4Addr

end RustStd
