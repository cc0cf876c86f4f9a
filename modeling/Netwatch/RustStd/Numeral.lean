import Netwatch.RustStd.IpAddr

/-!
# Numerals

`from_str_radix` and `parse` of the unsigned integer types, and the numerals that they are given.

## Main definitions

- `fromStrRadix` — reading a numeral
- `padHex` — a number in upper-case hexadecimal digits, with leading zeros

## Main results

- `fromStrRadix_padHex`, `fromStrRadix_toDigits` — a numeral is read as the number it shows
-/

namespace RustStd.Str

/-- An optional plus sign, then digits, of a number that fits into so many bits. -/
def fromStrRadix (radix bits : ℕ) (s : Str) : Option ℕ :=
  let digits := (stripPrefix ['+'] s).getD s
  let value := (digits.filterMap (IpAddr.toDigit radix)).foldl (fun n d => n * radix + d) 0
  if digits ≠ [] ∧ (digits.all fun c => (IpAddr.toDigit radix c).isSome) ∧ value < 2 ^ bits then
    some value
  else none

/-- The last digits of a number. -/
def padDigits (radix : ℕ) : (width n : ℕ) → List ℕ
  | 0, _ => []
  | width + 1, n => padDigits radix width (n / radix) ++ [n % radix]

def upperDigit (d : ℕ) : Char := Char.ofNat (if d < 10 then 48 + d else 55 + d)

/-- `{:08X}` for a width of eight. -/
def padHex (width n : ℕ) : Str := (padDigits 16 width n).map upperDigit

theorem foldl_padDigits (radix width n : ℕ) :
    (padDigits radix width n).foldl (fun n d => n * radix + d) 0 = n % radix ^ width := by
  induction width generalizing n with
  | zero => rw [pow_zero, Nat.mod_one, padDigits, List.foldl_nil]
  | succ width ih =>
    rw [padDigits, List.foldl_append, ih, List.foldl_cons, List.foldl_nil, Nat.pow_succ',
      Nat.mod_mul, Nat.mul_comm, Nat.add_comm]

theorem mem_padDigits {radix width n d : ℕ} (hradix : 0 < radix)
    (h : d ∈ padDigits radix width n) : d < radix := by
  induction width generalizing n with
  | zero => cases h
  | succ width ih =>
    rw [padDigits, List.mem_append, List.mem_singleton] at h
    obtain h | rfl := h
    · exact ih h
    · exact Nat.mod_lt n hradix

theorem toDigit_upperDigit : ∀ d < 16, IpAddr.toDigit 16 (upperDigit d) = some d := by decide

theorem upperDigit_ne_plus : ∀ d < 16, upperDigit d ≠ '+' := by decide

theorem length_padHex (width n : ℕ) : (padHex width n).length = width := by
  rw [padHex, List.length_map]
  induction width generalizing n with
  | zero => rfl
  | succ width ih => rw [padDigits, List.length_append, ih, List.length_singleton]

/-- Digits without a sign. -/
theorem fromStrRadix_eq {radix bits : ℕ} {s : Str} {value : Char → ℕ} (hne : s ≠ [])
    (hplus : '+' ∉ s) (hdigits : ∀ c ∈ s, IpAddr.toDigit radix c = some (value c))
    (hfits : (s.map value).foldl (fun n d => n * radix + d) 0 < 2 ^ bits) :
    fromStrRadix radix bits s = some ((s.map value).foldl (fun n d => n * radix + d) 0) := by
  have hsign : stripPrefix ['+'] s = none := by
    cases h : stripPrefix ['+'] s with
    | none => rfl
    | some t =>
      rw [stripPrefix_eq_some h] at hplus
      exact absurd List.mem_cons_self hplus
  have hmap : s.filterMap (IpAddr.toDigit radix) = s.map value := by
    rw [← List.filterMap_eq_map]
    exact List.filterMap_congr hdigits
  have hall : (s.all fun c => (IpAddr.toDigit radix c).isSome) = true := by
    rw [List.all_eq_true]
    intro c hc
    rw [hdigits c hc, Option.isSome_some]
  rw [fromStrRadix, hsign, Option.getD_none, hmap, if_pos ⟨hne, hall, hfits⟩]

theorem fromStrRadix_padHex {width bits n : ℕ} (hwidth : 0 < width) (hn : n < 16 ^ width)
    (hfits : n < 2 ^ bits) : fromStrRadix 16 bits (padHex width n) = some n := by
  have hdigit : ∀ c ∈ padHex width n, ∃ d < 16, c = upperDigit d := by
    intro c hc
    obtain ⟨d, hd, rfl⟩ := List.mem_map.mp hc
    exact ⟨d, mem_padDigits (by decide) hd, rfl⟩
  have hvalue : (padHex width n).map (fun c => (IpAddr.toDigit 16 c).getD 0) =
      padDigits 16 width n := by
    rw [padHex, List.map_map]
    refine (List.map_congr_left fun d hd => ?_).trans (List.map_id _)
    show (IpAddr.toDigit 16 (upperDigit d)).getD 0 = d
    rw [toDigit_upperDigit d (mem_padDigits (by decide) hd), Option.getD_some]
  have hread := foldl_padDigits 16 width n
  rw [Nat.mod_eq_of_lt hn, ← hvalue] at hread
  refine (fromStrRadix_eq ?_ ?_ (fun c hc => ?_) (hread.trans_lt hfits)).trans (congrArg _ hread)
  · exact List.ne_nil_of_length_pos (by rwa [length_padHex])
  · intro hplus
    obtain ⟨d, hd, heq⟩ := hdigit '+' hplus
    exact upperDigit_ne_plus d hd heq.symm
  · obtain ⟨d, hd, rfl⟩ := hdigit c hc
    rw [toDigit_upperDigit d hd, Option.getD_some]

theorem toDigit_of_isDigit {c : Char} (h : c.isDigit = true) :
    IpAddr.toDigit 10 c = some (c.toNat - 48) := by
  have hhigh : c.val ≤ 57 := of_decide_eq_true (Bool.and_eq_true_iff.mp h).2
  have hle : c.toNat ≤ 57 := UInt32.le_iff_toNat_le.mp hhigh
  rw [IpAddr.toDigit, if_pos h, if_pos (by omega)]

theorem fromStrRadix_toDigits {bits n : ℕ} (hfits : n < 2 ^ bits) :
    fromStrRadix 10 bits (Nat.toDigits 10 n) = some n := by
  have hdigit : ∀ c ∈ Nat.toDigits 10 n, c.isDigit = true := fun c hc =>
    Nat.isDigit_of_mem_toDigits (by decide) (by decide) hc
  have hread : ((Nat.toDigits 10 n).map fun c => c.toNat - 48).foldl (fun n d => n * 10 + d) 0 =
      n := by
    have hten := @Nat.ofDigitChars_ten_toDigits n
    rw [Nat.ofDigitChars_eq_foldl] at hten
    rw [List.foldl_map]
    refine Eq.trans ?_ hten
    congr 1
    funext value c
    rw [Nat.mul_comm]
    rfl
  refine (fromStrRadix_eq Nat.toDigits_ne_nil ?_ (fun c hc => ?_) (hread.trans_lt hfits)).trans
    (congrArg _ hread)
  · exact fun hplus => absurd (hdigit '+' hplus) (by decide)
  · exact toDigit_of_isDigit (hdigit c hc)

end RustStd.Str
