import Mathlib.Data.BitVec

/-!
# High-bit masks

`u32::MAX << k` and its like keep the bits from `k` on, so two masked words agree exactly
when their quotients by `2 ^ k` do.
-/

namespace RustStd.Mask

variable {w : ℕ}

/-- `MAX << k` on a `w`-bit word. -/
def high (w k : ℕ) : BitVec w := BitVec.allOnes w <<< k

/-- `MAX << (w - prefixLen)`, or nothing if the subtraction or the shift overflows. -/
def checkedHigh (w prefixLen : ℕ) : Option (BitVec w) :=
  if prefixLen ≤ w ∧ w - prefixLen < w then some (high w (w - prefixLen)) else none

theorem checkedHigh_eq_some {prefixLen : ℕ} (hpos : 0 < prefixLen) (hle : prefixLen ≤ w) :
    checkedHigh w prefixLen = some (high w (w - prefixLen)) :=
  if_pos ⟨hle, by omega⟩

theorem getLsbD_and_high (x : BitVec w) (k i : ℕ) :
    (x &&& high w k).getLsbD i = (decide (k ≤ i) && x.getLsbD i) := by
  by_cases hi : i < w
  · by_cases hk : k ≤ i
    · have hni : ¬ i < k := by omega
      simp [high, hi, hk, hni]
    · have hik : i < k := by omega
      simp [high, hk, hik]
  · simp [high, BitVec.getLsbD_of_ge x i (by omega)]

theorem and_high_eq_iff (x y : BitVec w) (k : ℕ) :
    x &&& high w k = y &&& high w k ↔ x.toNat / 2 ^ k = y.toNat / 2 ^ k := by
  have hshift : x.toNat / 2 ^ k = y.toNat / 2 ^ k ↔ x >>> k = y >>> k := by
    rw [← BitVec.toNat_inj, BitVec.toNat_ushiftRight, BitVec.toNat_ushiftRight,
      Nat.shiftRight_eq_div_pow, Nat.shiftRight_eq_div_pow]
  rw [hshift]
  constructor
  · intro h
    apply BitVec.eq_of_getLsbD_eq
    intro i _
    have hbit := congrArg (·.getLsbD (k + i)) h
    simp only [getLsbD_and_high] at hbit
    simpa using hbit
  · intro h
    apply BitVec.eq_of_getLsbD_eq
    intro i _
    rw [getLsbD_and_high, getLsbD_and_high]
    by_cases hk : k ≤ i
    · have hbit := congrArg (·.getLsbD (i - k)) h
      simp only [BitVec.getLsbD_ushiftRight] at hbit
      rw [show k + (i - k) = i by omega] at hbit
      rw [hbit]
    · simp [hk]

theorem and_high_eq_shift (x : BitVec w) (k : ℕ) : x &&& high w k = x >>> k <<< k := by
  apply BitVec.eq_of_getLsbD_eq
  intro i hi
  rw [getLsbD_and_high, BitVec.getLsbD_shiftLeft, BitVec.getLsbD_ushiftRight]
  by_cases hk : k ≤ i
  · have hsum : k + (i - k) = i := by omega
    simp [hi, hk, hsum]
  · simp [hk]

/-- A masked word is rounded down to a multiple of `2 ^ k`. -/
theorem toNat_and_high (x : BitVec w) (k : ℕ) :
    (x &&& high w k).toNat = x.toNat / 2 ^ k * 2 ^ k := by
  have hle : x.toNat / 2 ^ k * 2 ^ k ≤ x.toNat := Nat.div_mul_le_self _ _
  rw [and_high_eq_shift, BitVec.toNat_shiftLeft, BitVec.toNat_ushiftRight,
    Nat.shiftRight_eq_div_pow, Nat.shiftLeft_eq, Nat.mod_eq_of_lt (hle.trans_lt x.isLt)]

/-- The test whether two words have the same `prefixLen` leading bits, which spells the prefix
zero out because a shift by the whole width overflows. -/
theorem masked_iff (x y : BitVec w) (prefixLen : ℕ) :
    (if prefixLen = 0 then true
      else x &&& high w (w - prefixLen) == y &&& high w (w - prefixLen)) = true ↔
      x.toNat / 2 ^ (w - prefixLen) = y.toNat / 2 ^ (w - prefixLen) := by
  split
  · next h =>
    rw [h, Nat.sub_zero, Nat.div_eq_of_lt x.isLt, Nat.div_eq_of_lt y.isLt]
    simp only
  · rw [beq_iff_eq]
    exact and_high_eq_iff x y _

end RustStd.Mask
