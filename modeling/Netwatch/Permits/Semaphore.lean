import Mathlib.Data.List.Perm.Basic
import Mathlib.Logic.Function.Basic

/-!
# Semaphores and the tasks that hold their permits

A family of counting semaphores, and a list of tasks each of which holds one permit of its own
semaphore. No permit is lost and none is made up as long as a task takes its permit before it
is listed and gives it back when it is struck off.

## Main definitions

- `tryAcquire`, `release` — a permit is taken if one is free, and given back
- `Balanced` — free permits and permits held add up to the limit

## Main results

- `Balanced.acquire`, `Balanced.release`, `Balanced.set` — what keeps the balance
- `Balanced.exhausted_iff` — no permit is to be had exactly if as many tasks as allowed hold one
-/

namespace Permits

variable {ι α : Type*} [DecidableEq ι]

/-- The free permits, after one of `i` is taken. -/
def tryAcquire (free : ι → ℕ) (i : ι) : Option (ι → ℕ) :=
  if free i = 0 then none else some (Function.update free i (free i - 1))

def release (free : ι → ℕ) (i : ι) : ι → ℕ := Function.update free i (free i + 1)

/-- How many of the tasks hold a permit of `i`. -/
def held (pool : α → ι) (tasks : List α) (i : ι) : ℕ := tasks.countP fun a => pool a = i

def Balanced (limit free : ι → ℕ) (pool : α → ι) (tasks : List α) : Prop :=
  ∀ i, free i + held pool tasks i = limit i

variable {limit free free' : ι → ℕ} {pool : α → ι} {tasks tasks' : List α} {a b : α}

theorem held_perm (h : tasks.Perm tasks') (i : ι) : held pool tasks i = held pool tasks' i :=
  h.countP_eq _

theorem held_cons (a : α) (tasks : List α) (i : ι) :
    held pool (a :: tasks) i = held pool tasks i + if pool a = i then 1 else 0 := by
  simp only [held, List.countP_cons, decide_eq_true_eq]

theorem held_concat (a : α) (tasks : List α) (i : ι) :
    held pool (tasks ++ [a]) i = held pool tasks i + if pool a = i then 1 else 0 := by
  rw [held_perm (List.perm_append_singleton a tasks), held_cons]

theorem held_eraseIdx {n : ℕ} (ha : tasks[n]? = some a) (i : ι) :
    held pool tasks i = held pool (tasks.eraseIdx n) i + if pool a = i then 1 else 0 := by
  obtain ⟨hn, rfl⟩ := List.getElem?_eq_some_iff.mp ha
  rw [← held_cons, held_perm (List.getElem_cons_eraseIdx_perm hn)]

theorem held_set {n : ℕ} (ha : tasks[n]? = some a) (b : α) (i : ι) :
    held pool (tasks.set n b) i + (if pool a = i then 1 else 0) =
      held pool tasks i + if pool b = i then 1 else 0 := by
  obtain ⟨hn, rfl⟩ := List.getElem?_eq_some_iff.mp ha
  rw [held_perm (List.set_perm_cons_eraseIdx hn b), held_cons, held_eraseIdx ha]
  omega

theorem balanced_nil (limit : ι → ℕ) (pool : α → ι) : Balanced limit limit pool [] :=
  fun _ => rfl

theorem Balanced.held_le (h : Balanced limit free pool tasks) (i : ι) :
    held pool tasks i ≤ limit i := h i ▸ Nat.le_add_left _ _

theorem Balanced.acquire (h : Balanced limit free pool tasks)
    (hfree : tryAcquire free (pool a) = some free') :
    Balanced limit free' pool (tasks ++ [a]) := by
  intro i
  rw [tryAcquire] at hfree
  split at hfree
  · cases hfree
  · next hpos =>
    obtain rfl := Option.some.inj hfree
    have hi := h i
    rw [held_concat]
    by_cases hpool : pool a = i
    · subst hpool
      rw [Function.update_self, if_pos rfl]
      omega
    · rw [Function.update_of_ne (Ne.symm hpool), if_neg hpool]
      omega

/-- The `n`-th task gives its permit back. -/
theorem Balanced.release {n : ℕ} (h : Balanced limit free pool tasks)
    (ha : tasks[n]? = some a) :
    Balanced limit (Permits.release free (pool a)) pool (tasks.eraseIdx n) := by
  intro i
  have hi := h i
  rw [held_eraseIdx ha] at hi
  rw [Permits.release]
  by_cases hpool : pool a = i
  · subst hpool
    rw [if_pos rfl] at hi
    rw [Function.update_self]
    omega
  · rw [if_neg hpool] at hi
    rw [Function.update_of_ne (Ne.symm hpool)]
    omega

/-- The `n`-th task goes on and keeps its permit. -/
theorem Balanced.set {n : ℕ} (h : Balanced limit free pool tasks)
    (ha : tasks[n]? = some a) (hpool : pool b = pool a) :
    Balanced limit free pool (tasks.set n b) := by
  intro i
  have hi := h i
  have hset : held pool (tasks.set n b) i + _ = held pool tasks i + _ := held_set ha b i
  rw [hpool] at hset
  omega

theorem Balanced.exhausted_iff (h : Balanced limit free pool tasks) (i : ι) :
    tryAcquire free i = none ↔ held pool tasks i = limit i := by
  have hi := h i
  rw [tryAcquire]
  split
  · next hzero => exact iff_of_true rfl (by omega)
  · next hpos => exact iff_of_false (Option.some_ne_none _) (by omega)

end Permits
