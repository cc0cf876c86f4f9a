import Mathlib.Data.Nat.Find
import Mathlib.Tactic.Common

/-!
# Retries with a capped delay

An operation is attempted until it succeeds, fails in a way that another attempt would not mend,
or fails when its time is up. Between the attempts there are delays, positive and capped, and
they are all the time that passes.

## Main definitions

- `Backoff` — the delays
- `Backoff.slept` — when an attempt is made
- `Backoff.IsLast` — an attempt that is not followed by another one

## Main results

- `exists_isLast` — there is a last attempt
- `IsLast.slept_lt` — it is made no later than a delay after the deadline
- `loop_eq_of_isLast` — the rule for a loop that retries
-/

namespace Retry

structure Backoff where
  first : ℕ
  next : ℕ → ℕ
  cap : ℕ
  first_pos : 0 < first
  first_le : first ≤ cap
  next_pos : ∀ d, 0 < d → 0 < next d
  next_le : ∀ d, next d ≤ cap

namespace Backoff

section Delays

variable (b : Backoff)

/-- The delay after the `n`-th attempt. -/
def delay : ℕ → ℕ
  | 0 => b.first
  | n + 1 => b.next (delay n)

/-- The time slept before the `n`-th attempt. -/
def slept : ℕ → ℕ
  | 0 => 0
  | n + 1 => slept n + b.delay n

theorem delay_pos (n : ℕ) : 0 < b.delay n := by
  induction n with
  | zero => exact b.first_pos
  | succ n ih => exact b.next_pos _ ih

theorem delay_le_cap (n : ℕ) : b.delay n ≤ b.cap := by
  cases n with
  | zero => exact b.first_le
  | succ n => exact b.next_le _

theorem le_slept (n : ℕ) : n ≤ b.slept n := by
  induction n with
  | zero => exact Nat.zero_le _
  | succ n ih =>
    have hpos := b.delay_pos n
    rw [slept]
    omega

end Delays

variable {ε α ρ : Type*}

/-- The `n`-th attempt fails in time, and in a way that another one may mend. -/
def Retried (b : Backoff) (retryable : ε → Prop) (attempt : ℕ → Except ε α) (deadline n : ℕ) :
    Prop := ∃ e, attempt n = .error e ∧ retryable e ∧ b.slept n < deadline

/-- The first attempt after which there is no other one. -/
structure IsLast (b : Backoff) (retryable : ε → Prop) (attempt : ℕ → Except ε α)
    (deadline n : ℕ) : Prop where
  not_retried : ¬ b.Retried retryable attempt deadline n
  retried : ∀ i < n, b.Retried retryable attempt deadline i

variable {b : Backoff} {retryable : ε → Prop} {attempt : ℕ → Except ε α} {deadline n : ℕ}

/-- The clock advances with every delay, so that the deadline passes. -/
theorem exists_isLast (b : Backoff) (retryable : ε → Prop) (attempt : ℕ → Except ε α)
    (deadline : ℕ) : ∃ n ≤ deadline, b.IsLast retryable attempt deadline n := by
  classical
  have hstops : ¬ b.Retried retryable attempt deadline deadline := by
    rintro ⟨e, -, -, hlt⟩
    exact absurd hlt (Nat.not_lt.mpr (b.le_slept deadline))
  have hex : ∃ n, ¬ b.Retried retryable attempt deadline n := ⟨deadline, hstops⟩
  exact ⟨Nat.find hex, Nat.find_min' hex hstops, Nat.find_spec hex,
    fun i hi => not_not.mp (Nat.find_min hex hi)⟩

namespace IsLast

variable (h : b.IsLast retryable attempt deadline n)

include h

theorem slept_lt : b.slept n < deadline + b.cap := by
  cases n with
  | zero =>
    have hpos := b.first_pos
    have hle := b.first_le
    rw [slept]
    omega
  | succ m =>
    obtain ⟨e, -, -, hlt⟩ := h.retried m (Nat.lt_succ_self m)
    have hcap := b.delay_le_cap m
    rw [slept]
    omega

theorem deadline_le_slept {e : ε} (herror : attempt n = .error e) (he : retryable e) :
    deadline ≤ b.slept n := by
  by_contra hlt
  exact h.not_retried ⟨e, herror, he, Nat.lt_of_not_le hlt⟩

/-- An attempt that is made is the last one, or another one follows it. -/
theorem eq_of_not_retried {m : ℕ} (hle : m ≤ n) (hm : ¬ b.Retried retryable attempt deadline m) :
    m = n := by
  by_contra hne
  exact hm (h.retried m (by omega))

theorem unique {m : ℕ} (hm : b.IsLast retryable attempt deadline m) : m = n := by
  rcases Nat.le_total m n with hle | hle
  · exact h.eq_of_not_retried hle hm.not_retried
  · exact (hm.eq_of_not_retried hle h.not_retried).symm

end IsLast

/-- A loop that counts its attempts, keeps the clock and the next delay, and goes on exactly
after the attempts that are retried, ends with the last one. -/
theorem loop_eq_of_isLast {loop : ℕ → ℕ → ℕ → ℕ → Option ρ} {finish : ℕ → ρ}
    (hstop : ∀ fuel m, ¬ b.Retried retryable attempt deadline m →
      loop (fuel + 1) m (b.slept m) (b.delay m) = some (finish m))
    (hretry : ∀ fuel m, b.Retried retryable attempt deadline m →
      loop (fuel + 1) m (b.slept m) (b.delay m) =
        loop fuel (m + 1) (b.slept (m + 1)) (b.delay (m + 1)))
    (h : b.IsLast retryable attempt deadline n) {fuel : ℕ} (hfuel : n < fuel) :
    loop fuel 0 0 b.first = some (finish n) := by
  have hrun : ∀ fuel m, m ≤ n → n - m < fuel →
      loop fuel m (b.slept m) (b.delay m) = some (finish n) := by
    intro fuel
    induction fuel with
    | zero => exact fun m _ hlt => absurd hlt (Nat.not_lt_zero _)
    | succ fuel ih =>
      intro m hle hlt
      by_cases hm : b.Retried retryable attempt deadline m
      · have hne : m ≠ n := fun heq => h.not_retried (heq ▸ hm)
        rw [hretry fuel m hm]
        exact ih (m + 1) (by omega) (by omega)
      · rw [hstop fuel m hm, h.eq_of_not_retried hle hm]
  exact hrun fuel 0 (Nat.zero_le n) (by omega)

end Backoff

end Retry
