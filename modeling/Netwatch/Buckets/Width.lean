import Mathlib.Data.Int.Interval

/-!
# Buckets of one width

The integers are cut into buckets of one width, each named by the multiple of the width at which
it begins.

## Main definitions

- `start` — the beginning of the bucket of a number

## Main results

- `start_eq_iff` — a number is in exactly one bucket
- `length_le_of_span` — how many buckets a range of numbers meets
-/

namespace Buckets

variable {width : ℤ}

def start (width x : ℤ) : ℤ := x / width * width

theorem dvd_start (width x : ℤ) : width ∣ start width x := Dvd.intro_left _ rfl

theorem start_eq_iff (hwidth : 0 < width) {b x : ℤ} (hb : width ∣ b) :
    start width x = b ↔ b ≤ x ∧ x < b + width := by
  obtain ⟨k, rfl⟩ := hb
  rw [start, Int.mul_comm width k, Int.mul_eq_mul_right_iff (Int.ne_of_gt hwidth),
    Int.ediv_eq_iff_of_pos hwidth]

theorem start_mem (hwidth : 0 < width) (x : ℤ) :
    start width x ≤ x ∧ x < start width x + width :=
  (start_eq_iff hwidth (dvd_start width x)).mp rfl

/-- Numbers that are at most `n` widths apart lie in at most `n + 1` buckets. -/
theorem length_le_of_span (hwidth : 0 < width) {bs : List ℤ} (hnodup : bs.Nodup) {low high : ℤ}
    {n : ℕ} (hspan : high - low ≤ n * width)
    (hmem : ∀ b ∈ bs, ∃ x, low ≤ x ∧ x ≤ high ∧ start width x = b) : bs.length ≤ n + 1 := by
  have hindex : ∀ b ∈ bs, b / width ∈ Finset.Icc (low / width) (high / width) := by
    intro b hb
    obtain ⟨x, hlow, hhigh, rfl⟩ := hmem b hb
    rw [start, Int.mul_ediv_cancel _ (Int.ne_of_gt hwidth), Finset.mem_Icc]
    exact ⟨Int.ediv_le_ediv hwidth hlow, Int.ediv_le_ediv hwidth hhigh⟩
  have hinj : (bs.map fun b => b / width).Nodup := by
    refine hnodup.map_on fun b hb b' hb' heq => ?_
    obtain ⟨x, -, -, rfl⟩ := hmem b hb
    obtain ⟨x', -, -, rfl⟩ := hmem b' hb'
    rw [start, start, Int.mul_ediv_cancel _ (Int.ne_of_gt hwidth),
      Int.mul_ediv_cancel _ (Int.ne_of_gt hwidth)] at heq
    rw [start, start, heq]
  have hcard : bs.length ≤ (high / width + 1 - low / width).toNat := by
    rw [← Int.card_Icc, ← List.length_map (fun b => b / width),
      ← List.toFinset_card_of_nodup hinj]
    refine Finset.card_le_card fun k hk => ?_
    obtain ⟨b, hb, rfl⟩ := List.mem_map.mp (List.mem_toFinset.mp hk)
    exact hindex b hb
  have hquot : high / width ≤ low / width + n := by
    rw [← Int.add_mul_ediv_right low n (Int.ne_of_gt hwidth)]
    exact Int.ediv_le_ediv hwidth (by omega)
  omega

end Buckets
