import Mathlib.Data.Nat.Notation
import Mathlib.Tactic.Common

/-!
# Covers by intervals

Finitely many closed intervals cover a discrete range exactly when they leave out neither its
first point nor a point that follows one of them: the least point left out has a predecessor,
and the interval that contains it ends there.

## Main results

- `covers_iff` — a cover is checked at finitely many points
-/

namespace Intervals

/-- A closed interval, by its first and its last point. -/
abbrev Block := ℕ × ℕ

def Block.Contains (b : Block) (a : ℕ) : Prop := b.1 ≤ a ∧ a ≤ b.2

instance (b : Block) (a : ℕ) : Decidable (b.Contains a) :=
  inferInstanceAs (Decidable (b.1 ≤ a ∧ a ≤ b.2))

def Covered (blocks : List Block) (a : ℕ) : Prop := ∃ b ∈ blocks, b.Contains a

instance (blocks : List Block) (a : ℕ) : Decidable (Covered blocks a) :=
  inferInstanceAs (Decidable (∃ b ∈ blocks, b.Contains a))

/-- A point of the range `0 … size - 1` at which a cover would break off: its beginning, or
what follows a block. -/
inductive Gap (blocks : List Block) (size : ℕ) : Prop
  | first (h : ¬ Covered blocks 0)
  | next (b : Block) (hb : b ∈ blocks) (hlt : b.2 + 1 < size) (h : ¬ Covered blocks (b.2 + 1))

theorem covers_iff {blocks : List Block} {size : ℕ} (hsize : 0 < size) :
    (∀ a < size, Covered blocks a) ↔ ¬ Gap blocks size := by
  constructor
  · intro h hgap
    cases hgap with
    | first hfirst => exact hfirst (h 0 hsize)
    | next b _ hlt hnext => exact hnext (h (b.2 + 1) hlt)
  · intro hgap a
    induction a with
    | zero => exact fun _ => by_contra fun h => hgap (.first h)
    | succ a ih =>
      intro hlt
      obtain ⟨b, hb, hlow, hhigh⟩ := ih (by omega)
      by_cases hend : a = b.2
      · -- the block ends here, so the next point begins another one
        by_contra hno
        rw [hend] at hno hlt
        exact hgap (.next b hb hlt hno)
      · exact ⟨b, hb, by omega, by omega⟩

end Intervals
