import Mathlib.Data.List.Chain
import Mathlib.Tactic.Common

/-!
# Debounced logs

A log of keyed rows to which a value is added only when there is a reason to: the key has no
row yet, the digest of its value has changed, or its last row is a period old.

## Main definitions

- `latest` — the last row of a key
- `record` — add a row, if it is due
- `Spaced` — no row repeats the one before it within a period

## Main results

- `spaced_record` — adding rows this way keeps a log spaced
- `exists_latest_record` — and its last row says what was last reported
- `pairwise_steady` — without a change all rows of a key are a period apart
-/

namespace Debounce

variable {κ ν δ : Type*}

structure Row (κ ν : Type*) where
  key : κ
  value : ν
  time : ℕ
  deriving DecidableEq

section Latest

variable [DecidableEq κ]

/-- The rows of one key, in order. -/
def ofKey (k : κ) (rows : List (Row κ ν)) : List (Row κ ν) := rows.filter fun r => r.key = k

def latest (k : κ) (rows : List (Row κ ν)) : Option (Row κ ν) := (ofKey k rows).getLast?

@[simp] theorem latest_nil (k : κ) : latest k ([] : List (Row κ ν)) = none := rfl

theorem ofKey_append (k : κ) (rows rows' : List (Row κ ν)) :
    ofKey k (rows ++ rows') = ofKey k rows ++ ofKey k rows' :=
  List.filter_append rows rows'

theorem ofKey_singleton (k : κ) (r : Row κ ν) : ofKey k [r] = if r.key = k then [r] else [] := by
  by_cases h : r.key = k
  · simp [ofKey, h]
  · simp [ofKey, h]

theorem latest_append (k : κ) (rows rows' : List (Row κ ν)) :
    latest k (rows ++ rows') = (latest k rows').or (latest k rows) := by
  rw [latest, ofKey_append, List.getLast?_append, latest, latest]

theorem latest_singleton (k : κ) (r : Row κ ν) :
    latest k [r] = if r.key = k then some r else none := by
  rw [latest, ofKey_singleton]
  split <;> rfl

theorem latest_append_singleton (k : κ) (rows : List (Row κ ν)) (r : Row κ ν) :
    latest k (rows ++ [r]) = if r.key = k then some r else latest k rows := by
  rw [latest_append, latest_singleton]
  split <;> rfl

theorem mem_of_latest {k : κ} {rows : List (Row κ ν)} {r : Row κ ν}
    (h : latest k rows = some r) : r ∈ rows ∧ r.key = k := by
  have hmem := List.mem_filter.mp (List.mem_of_getLast? h)
  exact ⟨hmem.1, of_decide_eq_true hmem.2⟩

theorem latest_eq_none_iff {k : κ} {rows : List (Row κ ν)} :
    latest k rows = none ↔ ∀ r ∈ rows, r.key ≠ k := by
  rw [latest, List.getLast?_eq_none_iff, ofKey, List.filter_eq_nil_iff]
  simp only [decide_eq_true_eq, ne_eq]

end Latest

variable [DecidableEq δ] (digest : ν → δ) (period : ℕ)

/-- The row `r` has a reason to follow `last`. -/
def Due (last : Option (Row κ ν)) (r : Row κ ν) : Prop :=
  ∀ l ∈ last, digest l.value ≠ digest r.value ∨ l.time + period ≤ r.time

instance (last : Option (Row κ ν)) (r : Row κ ν) : Decidable (Due digest period last r) :=
  match last with
  | none => .isTrue (by simp [Due])
  | some l =>
    decidable_of_iff (digest l.value ≠ digest r.value ∨ l.time + period ≤ r.time)
      (by simp [Due])

/-- Two rows of a key that stand one after the other. -/
def Apart (r r' : Row κ ν) : Prop :=
  digest r.value ≠ digest r'.value ∨ r.time + period ≤ r'.time

variable [DecidableEq κ]

def record (r : Row κ ν) (rows : List (Row κ ν)) : List (Row κ ν) :=
  if Due digest period (latest r.key rows) r then rows ++ [r] else rows

def Spaced (rows : List (Row κ ν)) : Prop := ∀ k, (ofKey k rows).IsChain (Apart digest period)

variable {digest period}

theorem record_of_due {r : Row κ ν} {rows : List (Row κ ν)}
    (h : Due digest period (latest r.key rows) r) : record digest period r rows = rows ++ [r] :=
  if_pos h

theorem record_of_not_due {r : Row κ ν} {rows : List (Row κ ν)}
    (h : ¬ Due digest period (latest r.key rows) r) : record digest period r rows = rows :=
  if_neg h

theorem spaced_record (r : Row κ ν) {rows : List (Row κ ν)} (h : Spaced digest period rows) :
    Spaced digest period (record digest period r rows) := by
  by_cases hdue : Due digest period (latest r.key rows) r
  · rw [record_of_due hdue]
    intro k
    rw [ofKey_append, ofKey_singleton]
    by_cases hk : r.key = k
    · subst hk
      rw [if_pos rfl, List.isChain_append]
      refine ⟨h r.key, List.isChain_singleton r, ?_⟩
      intro l hl r' hr'
      obtain rfl : r = r' := by simpa using hr'
      exact hdue l hl
    · rw [if_neg hk, List.append_nil]
      exact h k
  · rw [record_of_not_due hdue]
    exact h

theorem latest_record_of_ne {k : κ} {r : Row κ ν} (hk : r.key ≠ k) (rows : List (Row κ ν)) :
    latest k (record digest period r rows) = latest k rows := by
  rw [record]
  split
  · rw [latest_append_singleton, if_neg hk]
  · rfl

/-- After a report the last row of its key has the digest that was reported. -/
theorem exists_latest_record (digest : ν → δ) (period : ℕ) (r : Row κ ν)
    (rows : List (Row κ ν)) :
    ∃ l, latest r.key (record digest period r rows) = some l ∧
      digest l.value = digest r.value := by
  by_cases hdue : Due digest period (latest r.key rows) r
  · refine ⟨r, ?_, rfl⟩
    rw [record_of_due hdue, latest_append_singleton, if_pos rfl]
  · rw [record_of_not_due hdue]
    simp only [Due, not_forall, not_or, not_not] at hdue
    obtain ⟨l, hl, hdigest, -⟩ := hdue
    exact ⟨l, hl, hdigest⟩

omit [DecidableEq δ] [DecidableEq κ] in
/-- Without a change the rows of a key are a period apart, whichever two are taken. -/
theorem pairwise_steady {d : δ} {rows : List (Row κ ν)}
    (h : rows.IsChain (Apart digest period)) (hd : ∀ r ∈ rows, digest r.value = d) :
    rows.Pairwise fun r r' => r.time + period ≤ r'.time := by
  have : IsTrans (Row κ ν) fun r r' => r.time + period ≤ r'.time :=
    ⟨fun r r' r'' h h' => by omega⟩
  rw [← List.isChain_iff_pairwise]
  refine h.imp_of_mem_imp ?_
  intro r r' hr hr' hapart
  obtain hne | htime := hapart
  · exact absurd ((hd r hr).trans (hd r' hr').symm) hne
  · exact htime

end Debounce
