import Mathlib.Algebra.GroupWithZero.Nat

/-!
# Bounds-checked slices

Indexing a `&[T]` panics outside its bounds. Here every access says so: a program that only ever
returns `.ok` has stayed within the slice.

## Main definitions

- `Slice` — a slice, never longer than `isize::MAX`
- `Slice.index`, `Slice.range` — `s[i]` and `s[start..stop]`
- `checkedAdd` — `usize::checked_add`
-/

namespace RustStd

structure Slice (α : Type*) where
  val : List α
  length_lt : val.length < 2 ^ 63

inductive Panic
  | index (i len : ℕ)
  | range (start stop len : ℕ)
  deriving DecidableEq

def checkedAdd (a b : ℕ) : Option ℕ := if a + b < 2 ^ 64 then some (a + b) else none

namespace Slice

variable {α : Type*} (s : Slice α)

def len : ℕ := s.val.length

def index (i : ℕ) : Except Panic α :=
  match s.val[i]? with
  | some x => .ok x
  | none => .error (.index i s.len)

def range (start stop : ℕ) : Except Panic (List α) :=
  if start ≤ stop ∧ stop ≤ s.len then .ok ((s.val.drop start).take (stop - start))
  else .error (.range start stop s.len)

variable {s}

theorem index_of_lt {i : ℕ} (h : i < s.len) : ∃ x, s.index i = .ok x := by
  refine ⟨s.val[i], ?_⟩
  rw [index, List.getElem?_eq_getElem h]

theorem range_of_le {start stop : ℕ} (h : start ≤ stop) (hstop : stop ≤ s.len) :
    s.range start stop = .ok ((s.val.drop start).take (stop - start)) := by
  rw [range, if_pos ⟨h, hstop⟩]

theorem len_append {pre rest : List α} (h : s.val = pre ++ rest) :
    s.len = pre.length + rest.length := by
  rw [len, h, List.length_append]

theorem index_append (pre : List α) {rest : List α} {x : α} (h : s.val = pre ++ x :: rest) :
    s.index pre.length = .ok x := by
  rw [index, h, List.getElem?_append_right (Nat.le_refl _), Nat.sub_self]
  rfl

theorem range_append (pre part : List α) {rest : List α} (h : s.val = pre ++ (part ++ rest)) :
    s.range pre.length (pre.length + part.length) = .ok part := by
  have hstop : pre.length + part.length ≤ s.len := by
    rw [len_append h, List.length_append]
    omega
  rw [range_of_le (Nat.le_add_right _ _) hstop, h, List.drop_left, Nat.add_sub_cancel_left,
    List.take_left]

/-- An offset up to the end of a slice, and a byte count after it, do not overflow. -/
theorem checkedAdd_of_le {i n : ℕ} (h : i ≤ s.len) (hn : n < 2 ^ 16) :
    checkedAdd i n = some (i + n) := by
  have hlen : s.len < 2 ^ 63 := s.length_lt
  rw [checkedAdd, if_pos (by omega)]

end Slice

end RustStd
