import Mathlib.Data.List.AList
import Mathlib.Algebra.BigOperators.Group.Finset.Piecewise

/-!
# Hash maps

A `HashMap` is an association list without repeated keys. The order of the list is the
iteration order, which `std` leaves unspecified: statements about runs allow any
permutation of the entries between two operations.

## Main definitions

- `orInsert` — `map.entry(k).or_insert(v)`
- `retain` — `HashMap::retain`
- `countValues` — how many keys hold a value of some kind
-/

namespace RustStd

abbrev HashMap (K V : Type*) := AList fun _ : K => V

namespace HashMap

variable {K V : Type*} [DecidableEq K]

def len (m : HashMap K V) : ℕ := m.entries.length

/-- `map.entry(k).or_insert(v)`: the first value stored under a key stays. -/
def orInsert (m : HashMap K V) (k : K) (v : V) : HashMap K V :=
  if k ∈ m then m else m.insert k v

def retain (m : HashMap K V) (p : K → V → Bool) : HashMap K V where
  entries := m.entries.filter fun e => p e.1 e.2
  nodupKeys := m.nodupKeys.sublist List.filter_sublist

/-- How many keys hold a value that satisfies `p`. -/
def countValues (m : HashMap K V) (p : V → Bool) : ℕ := m.entries.countP fun e => p e.2

/-- Same entries, in a possibly different iteration order. -/
def Reordered (m m' : HashMap K V) : Prop := m.entries.Perm m'.entries

theorem lookup_orInsert (m : HashMap K V) (k k' : K) (v : V) :
    (orInsert m k v).lookup k' =
      if k' = k then some ((m.lookup k).getD v) else m.lookup k' := by
  rw [orInsert]
  by_cases hk : k ∈ m
  · obtain ⟨w, hw⟩ := Option.isSome_iff_exists.mp (AList.lookup_isSome.mpr hk)
    by_cases h : k' = k
    · subst h
      simp [hk, hw]
    · simp [hk, h]
  · by_cases h : k' = k
    · subst h
      simp [hk, AList.lookup_eq_none.mpr hk]
    · simp [hk, h, AList.lookup_insert_ne h]

theorem lookup_retain (m : HashMap K V) (p : K → V → Bool) (k : K) :
    (retain m p).lookup k = (m.lookup k).filter (p k) := by
  ext v
  rw [← Option.mem_def, AList.mem_lookup_iff, Option.filter_eq_some_iff, ← Option.mem_def,
    AList.mem_lookup_iff]
  simp [retain]

theorem lookup_insert (m : HashMap K V) (k k' : K) (v : V) :
    (m.insert k v).lookup k' = if k' = k then some v else m.lookup k' := by
  by_cases h : k' = k
  · rw [h, AList.lookup_insert, if_pos rfl]
  · rw [AList.lookup_insert_ne h, if_neg h]

/-- What is found after an insertion was inserted, or was there before under another key. -/
theorem of_lookup_insert {m : HashMap K V} {k k' : K} {v v' : V}
    (h : (m.insert k v).lookup k' = some v') :
    k' = k ∧ v' = v ∨ k' ≠ k ∧ m.lookup k' = some v' := by
  rw [lookup_insert] at h
  split at h
  · next hk => exact .inl ⟨hk, (Option.some.inj h).symm⟩
  · next hk => exact .inr ⟨hk, h⟩

/-- What is read off the value of a key. -/
theorem bind_lookup_insert {W : Type*} (m : HashMap K V) (k k' : K) (v : V) (f : V → Option W) :
    ((m.insert k v).lookup k').bind f = if k' = k then f v else (m.lookup k').bind f := by
  rw [lookup_insert]
  split <;> rfl

theorem entries_orInsert (m : HashMap K V) (k : K) (v : V) :
    (orInsert m k v).entries = if k ∈ m then m.entries else ⟨k, v⟩ :: m.entries := by
  rw [orInsert]
  split
  · rfl
  · next hk => exact AList.entries_insert_of_notMem hk

theorem len_orInsert (m : HashMap K V) (k : K) (v : V) :
    len (orInsert m k v) = len m + if k ∈ m then 0 else 1 := by
  rw [len, entries_orInsert]
  split <;> simp [len]

theorem len_insert_of_notMem {m : HashMap K V} {k : K} (h : k ∉ m) (v : V) :
    len (m.insert k v) = len m + 1 := by
  rw [len, AList.entries_insert_of_notMem h, List.length_cons, len]

theorem len_insert_le (m : HashMap K V) (k : K) (v : V) : len (m.insert k v) ≤ len m + 1 := by
  rw [len, AList.entries_insert, List.length_cons]
  have hle := (List.kerase_sublist k m.entries).length_le
  rw [len]
  omega

omit [DecidableEq K] in
theorem len_retain_le (m : HashMap K V) (p : K → V → Bool) : len (retain m p) ≤ len m :=
  List.length_filter_le _ _

omit [DecidableEq K] in
theorem retain_eq_self {m : HashMap K V} {p : K → V → Bool}
    (h : ∀ e ∈ m.entries, p e.1 e.2 = true) : retain m p = m :=
  AList.ext (List.filter_eq_self.mpr h)

theorem len_retain_lt_iff {m : HashMap K V} {p : K → V → Bool} :
    len (retain m p) < len m ↔ ∃ k v, m.lookup k = some v ∧ p k v = false := by
  rw [len, retain, len]
  dsimp only
  rw [List.length_filter_lt_length_iff_exists]
  constructor
  · rintro ⟨e, he, hp⟩
    exact ⟨e.1, e.2, AList.mem_lookup_iff.mpr he, Bool.eq_false_iff.mpr hp⟩
  · rintro ⟨k, v, hk, hp⟩
    exact ⟨⟨k, v⟩, AList.mem_lookup_iff.mp hk, Bool.eq_false_iff.mp hp⟩

theorem len_erase_of_mem {m : HashMap K V} {k : K} (h : k ∈ m) : len (m.erase k) + 1 = len m := by
  have hkeys : (m.erase k).keys.length + 1 = m.keys.length := by
    have hpos := List.length_pos_of_mem (AList.mem_keys.mp h)
    rw [AList.keys_erase, List.length_erase_of_mem (AList.mem_keys.mp h)]
    omega
  rwa [AList.keys, List.keys, List.length_map, AList.keys, List.keys, List.length_map] at hkeys

theorem len_erase_le (m : HashMap K V) (k : K) : len (m.erase k) ≤ len m :=
  (List.kerase_sublist k m.entries).length_le

section Rows

variable [BEq K] [LawfulBEq K] (rows : List (K × V)) (m : HashMap K V) (k : K)

/-- The last row of a key is the one that is found. -/
theorem lookup_foldl_insert :
    (rows.foldl (fun m row => m.insert row.1 row.2) m).lookup k =
      (rows.reverse.lookup k).or (m.lookup k) := by
  induction rows generalizing m with
  | nil => rfl
  | cons row rows ih =>
    rw [List.foldl_cons, ih, List.reverse_cons, List.lookup_append, Option.or_assoc,
      lookup_insert]
    by_cases hk : k = row.1
    · rw [if_pos hk, hk, List.lookup_cons_self, Option.some_or]
    · rw [if_neg hk, List.lookup_cons, beq_false_of_ne hk]
      rfl

/-- The first row of a key is the one that is found, if the map does not have the key. -/
theorem lookup_foldl_orInsert :
    (rows.foldl (fun m row => m.orInsert row.1 row.2) m).lookup k =
      (m.lookup k).or (rows.lookup k) := by
  induction rows generalizing m with
  | nil => exact Option.or_none.symm
  | cons row rows ih =>
    rw [List.foldl_cons, ih, lookup_orInsert]
    by_cases hk : k = row.1
    · rw [if_pos hk, hk, List.lookup_cons_self]
      cases m.lookup row.1 <;> rfl
    · rw [if_neg hk, List.lookup_cons, beq_false_of_ne hk]

end Rows

section EraseAll

variable {α : Type*} (f : α → K) (l : List α) (m : HashMap K V)

theorem lookup_foldl_erase (k : K) :
    (l.foldl (fun m a => m.erase (f a)) m).lookup k =
      if k ∈ l.map f then none else m.lookup k := by
  induction l generalizing m with
  | nil => rfl
  | cons a l ih =>
    rw [List.foldl_cons, ih, List.map_cons]
    by_cases hl : k ∈ l.map f
    · rw [if_pos hl, if_pos (List.mem_cons_of_mem _ hl)]
    · rw [if_neg hl]
      by_cases ha : k = f a
      · rw [ha, AList.lookup_erase, if_pos List.mem_cons_self]
      · rw [AList.lookup_erase_ne ha, if_neg fun hmem => (List.mem_cons.mp hmem).elim ha hl]

theorem len_foldl_erase_le : len (l.foldl (fun m a => m.erase (f a)) m) ≤ len m := by
  induction l generalizing m with
  | nil => exact le_rfl
  | cons a l ih => exact (ih (m.erase (f a))).trans (len_erase_le m (f a))

variable {f l m}

theorem len_foldl_erase (hnodup : (l.map f).Nodup) (hmem : ∀ a ∈ l, f a ∈ m) :
    len (l.foldl (fun m a => m.erase (f a)) m) + l.length = len m := by
  induction l generalizing m with
  | nil => rfl
  | cons a l ih =>
    obtain ⟨hnot, hnodup⟩ := List.nodup_cons.mp hnodup
    have hrest : ∀ b ∈ l, f b ∈ m.erase (f a) := by
      intro b hb
      refine AList.mem_erase.mpr ⟨fun heq => ?_, hmem b (List.mem_cons_of_mem a hb)⟩
      exact hnot (heq ▸ List.mem_map_of_mem hb)
    have hlen := ih hnodup hrest
    have hone := len_erase_of_mem (hmem a List.mem_cons_self)
    rw [List.foldl_cons, List.length_cons]
    omega

end EraseAll

theorem countValues_orInsert (m : HashMap K V) (k : K) (v : V) (p : V → Bool) :
    countValues (orInsert m k v) p = countValues m p + if k ∉ m ∧ p v = true then 1 else 0 := by
  rw [countValues, entries_orInsert]
  by_cases hk : k ∈ m
  · simp [hk, countValues]
  · by_cases hv : p v = true <;> simp [hk, hv, countValues]

theorem countValues_eq_zero {m : HashMap K V} {p : V → Bool}
    (h : ∀ k v, m.lookup k = some v → p v = false) : countValues m p = 0 := by
  rw [countValues, List.countP_eq_zero]
  intro e he
  rw [h e.1 e.2 (AList.mem_lookup_iff.mpr he)]
  exact Bool.false_ne_true

/-- Sorting a list by a bounded number read off its elements loses none of them. -/
theorem sum_countP_eq_length {α : Type*} {f : α → ℕ} {n : ℕ} (l : List α)
    (h : ∀ a ∈ l, f a < n) :
    ∑ i ∈ Finset.range n, l.countP (fun a => f a = i) = l.length := by
  induction l with
  | nil => simp
  | cons a l ih =>
    have hlt : f a ∈ Finset.range n := Finset.mem_range.mpr (h a (by simp))
    simp only [List.countP_cons, Finset.sum_add_distrib, decide_eq_true_eq, Finset.sum_ite_eq]
    rw [if_pos hlt, ih fun b hb => h b (by simp [hb]), List.length_cons]

theorem sum_countValues {m : HashMap K V} {f : V → ℕ} {n : ℕ}
    (h : ∀ k v, m.lookup k = some v → f v < n) :
    ∑ i ∈ Finset.range n, countValues m (fun v => f v = i) = len m :=
  sum_countP_eq_length m.entries fun e he => h e.1 e.2 (AList.mem_lookup_iff.mpr he)

theorem Reordered.lookup_eq {m m' : HashMap K V} (h : Reordered m m') (k : K) :
    m.lookup k = m'.lookup k :=
  AList.perm_lookup h

end HashMap

end RustStd
