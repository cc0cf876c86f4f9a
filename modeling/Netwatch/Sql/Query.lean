import Mathlib.Algebra.BigOperators.Group.List.Lemmas
import Mathlib.Algebra.GroupWithZero.Nat
import Mathlib.Data.List.Dedup
import Mathlib.Data.List.Sort

/-!
# Joins, pages and groups

What a `SELECT` does with lists of rows, apart from the columns it picks: `LEFT JOIN`,
`LIMIT … OFFSET …`, `GROUP BY` and `LIKE`.

## Main results

- `leftJoin_eq_map` — a join on a condition that holds of at most one right row keeps every
  left row once
- `flatMap_page` — consecutive pages give the beginning of the result
- `filter_leftJoin` — a condition on the left rows may be tested before the join
- `mem_groupBy` — a group is the rows with its key
- `sum_length_groupBy` — every row is in one group
- `sum_countP_groupBy` — what is counted in the groups is counted once
- `leftJoin_groupBy` — a join with groups on their key keeps every left row once
- `sum_countP_comm` — the pairs that match, counted from either side
-/

namespace Sql

variable {α β κ : Type*}

/-- `LEFT JOIN … ON`: a left row without a match stays once, with no right row. -/
def leftJoin (on : α → β → Bool) (left : List α) (right : List β) : List (α × Option β) :=
  left.flatMap fun a =>
    match right.filter (on a) with
    | [] => [(a, none)]
    | matched => matched.map fun b => (a, some b)

theorem leftJoin_eq_map {on : α → β → Bool} {left : List α} {right : List β}
    (h : ∀ a ∈ left, (right.filter (on a)).length ≤ 1) :
    leftJoin on left right = left.map fun a => (a, right.find? (on a)) := by
  induction left with
  | nil => rfl
  | cons a left ih =>
    have hrest := ih fun b hb => h b (List.mem_cons_of_mem a hb)
    have hhead : (match right.filter (on a) with
        | [] => [(a, none)]
        | matched => matched.map fun b => (a, some b)) = [(a, right.find? (on a))] := by
      have hone := h a List.mem_cons_self
      rw [← List.head?_filter]
      match hm : right.filter (on a) with
      | [] => rfl
      | [b] => rfl
      | b :: c :: rest =>
        rw [hm] at hone
        simp at hone
    rw [leftJoin, List.flatMap_cons, hhead, List.map_cons]
    exact congrArg ((a, right.find? (on a)) :: ·) hrest

theorem filter_flatMap_of_fst {f : α → List (α × β)} (hf : ∀ a, ∀ j ∈ f a, j.1 = a)
    (p : α → Bool) (left : List α) :
    (left.flatMap f).filter (fun j => p j.1) = (left.filter p).flatMap f := by
  induction left with
  | nil => rfl
  | cons a left ih =>
    rw [List.flatMap_cons, List.filter_append, ih]
    by_cases ha : p a = true
    · have hall : (f a).filter (fun j => p j.1) = f a := by
        refine List.filter_eq_self.mpr fun j hj => ?_
        rw [hf a j hj]
        exact ha
      rw [hall, List.filter_cons_of_pos ha, List.flatMap_cons]
    · have hnone : (f a).filter (fun j => p j.1) = [] := by
        refine List.filter_eq_nil_iff.mpr fun j hj => ?_
        rw [hf a j hj]
        exact ha
      rw [hnone, List.filter_cons_of_neg ha, List.nil_append]

/-- A condition on the left rows may be tested before the join. -/
theorem filter_leftJoin (on : α → β → Bool) (left : List α) (right : List β) (p : α → Bool) :
    (leftJoin on left right).filter (fun j => p j.1) = leftJoin on (left.filter p) right := by
  refine filter_flatMap_of_fst (fun a j hj => ?_) p left
  split at hj
  · rw [List.mem_singleton.mp hj]
  · obtain ⟨b, -, rfl⟩ := List.mem_map.mp hj
    rfl

theorem sum_map_ite (p : α → Bool) (rows : List α) :
    (rows.map fun a => if p a then 1 else 0).sum = rows.countP p := by
  induction rows with
  | nil => rfl
  | cons a rows ih => rw [List.map_cons, List.sum_cons, ih, List.countP_cons, Nat.add_comm]

/-- The pairs that match can be counted from the left and from the right. -/
theorem sum_countP_comm (on : α → β → Bool) (left : List α) (right : List β) :
    (left.map fun a => right.countP (on a)).sum =
      (right.map fun b => left.countP fun a => on a b).sum := by
  induction left with
  | nil => simp
  | cons a left ih =>
    simp only [List.map_cons, List.sum_cons, ih, List.countP_cons, List.sum_map_add]
    rw [sum_map_ite, Nat.add_comm]

/-- `LIMIT limit OFFSET offset`. -/
def page (limit offset : ℕ) (rows : List α) : List α := (rows.drop offset).take limit

/-- The first `n` pages of `limit` rows are the first `n * limit` rows. -/
theorem flatMap_page (limit n : ℕ) (rows : List α) :
    (List.range n).flatMap (fun k => page limit (k * limit) rows) = rows.take (n * limit) := by
  induction n with
  | zero => simp
  | succ n ih =>
    rw [List.range_succ, List.flatMap_append, ih, List.flatMap_singleton, page,
      Nat.succ_mul, List.take_add]

theorem length_le_one_of_nodup {ks : List κ} (hnodup : ks.Nodup)
    (h : ∀ k ∈ ks, ∀ k' ∈ ks, k = k') : ks.length ≤ 1 := by
  cases ks with
  | nil => exact Nat.zero_le 1
  | cons k ks =>
    cases ks with
    | nil => exact Nat.le_refl 1
    | cons k' ks =>
      have heq : k = k' := h k (by simp) k' (by simp)
      rw [heq] at hnodup
      simp at hnodup

section Group

variable [DecidableEq κ]

/-- `GROUP BY`: the keys that occur, each with its rows. -/
def groupBy (key : α → κ) (rows : List α) : List (κ × List α) :=
  (rows.map key).dedup.map fun k => (k, rows.filter fun a => key a = k)

theorem mem_groupBy {key : α → κ} {rows : List α} {g : κ × List α} (h : g ∈ groupBy key rows) :
    g.2 = rows.filter fun a => key a = g.1 := by
  obtain ⟨k, -, rfl⟩ := List.mem_map.mp h
  rfl

/-- Every key that occurs has its group, and there is no empty one. -/
theorem mem_groupBy_iff {key : α → κ} {rows : List α} {k : κ} {group : List α} :
    (k, group) ∈ groupBy key rows ↔ group = rows.filter (fun a => key a = k) ∧ group ≠ [] := by
  have hkey : k ∈ (rows.map key).dedup ↔ rows.filter (fun a => key a = k) ≠ [] := by
    rw [List.mem_dedup, List.mem_map, Ne, List.filter_eq_nil_iff]
    simp
  constructor
  · intro h
    obtain ⟨k', hk', heq⟩ := List.mem_map.mp h
    cases heq
    exact ⟨rfl, hkey.mp hk'⟩
  · rintro ⟨rfl, hne⟩
    exact List.mem_map.mpr ⟨k, hkey.mpr hne, rfl⟩

theorem groupBy_congr {key key' : α → κ} {rows : List α} (h : ∀ a ∈ rows, key a = key' a) :
    groupBy key rows = groupBy key' rows := by
  rw [groupBy, groupBy, List.map_congr_left h]
  congr 1
  funext k
  rw [List.filter_congr fun a ha => by rw [h a ha]]

/-- The groups with `ORDER BY` their keys. -/
theorem insertionSort_groupBy (r : κ → κ → Prop) [DecidableRel r] (key : α → κ) (rows : List α) :
    (groupBy key rows).insertionSort (fun g g' => r g.1 g'.1) =
      ((rows.map key).dedup.insertionSort r).map fun k => (k, rows.filter fun a => key a = k) :=
  (List.map_insertionSort r (fun g g' : κ × List α => r g.1 g'.1)
    (fun k => (k, rows.filter fun a => key a = k)) (rows.map key).dedup
    fun _ _ _ _ => Iff.rfl).symm

theorem sum_length_groupBy (key : α → κ) (rows : List α) :
    ((groupBy key rows).map fun g => g.2.length).sum = rows.length := by
  have hcount : ∀ k, (rows.filter fun a => key a = k).length = (rows.map key).count k := by
    intro k
    rw [List.count, List.countP_map, List.countP_eq_length_filter]
    rfl
  rw [groupBy, List.map_map, ← List.length_map key, ← List.sum_map_count_dedup_eq_length]
  congr 2
  funext k
  exact hcount k

theorem nodup_keys_groupBy (key : α → κ) (rows : List α) :
    ((groupBy key rows).map Prod.fst).Nodup := by
  rw [groupBy, List.map_map]
  exact (List.map_id (rows.map key).dedup).symm ▸ List.nodup_dedup _

/-- What a function that is zero without rows makes of the group of a key. -/
theorem find?_groupBy (key : α → κ) (rows : List α) (k : κ) (f : List α → ℕ) (hf : f [] = 0) :
    ((groupBy key rows).find? fun g => g.1 = k).elim 0 (fun g => f g.2) =
      f (rows.filter fun a => key a = k) := by
  by_cases hk : k ∈ (rows.map key).dedup
  · have hfind : (groupBy key rows).find? (fun g => g.1 = k) =
        some (k, rows.filter fun a => key a = k) := by
      cases hfound : (groupBy key rows).find? fun g => g.1 = k with
      | none =>
        have hnone := List.find?_eq_none.mp hfound _ (List.mem_map_of_mem hk)
        exact absurd (decide_eq_true rfl) hnone
      | some g =>
        have hkey : g.1 = k := by simpa using List.find?_some hfound
        have hgroup := mem_groupBy (List.mem_of_find?_eq_some hfound)
        rw [hkey] at hgroup
        exact congrArg some (Prod.ext hkey hgroup)
    rw [hfind, Option.elim_some]
  · have hfind : (groupBy key rows).find? (fun g => g.1 = k) = none := by
      rw [List.find?_eq_none]
      rintro g hg hcon
      obtain ⟨k', hk', rfl⟩ := List.mem_map.mp hg
      exact hk (of_decide_eq_true hcon ▸ hk')
    have hempty : rows.filter (fun a => key a = k) = [] := by
      rw [List.filter_eq_nil_iff]
      intro a ha hcon
      rw [List.mem_dedup] at hk
      exact hk (of_decide_eq_true hcon ▸ List.mem_map_of_mem ha)
    rw [hfind, hempty, Option.elim_none, hf]

/-- What is counted in the groups is counted once. -/
theorem sum_countP_groupBy (key : α → κ) (rows : List α) (p : α → Bool) :
    ((groupBy key rows).map fun g => g.2.countP p).sum = rows.countP p := by
  have hgroups : (groupBy key rows).map (fun g => g.2.countP p) =
      (rows.map key).dedup.map fun k => rows.countP fun a => p a && decide (key a = k) := by
    rw [groupBy, List.map_map]
    refine List.map_congr_left fun k _ => ?_
    exact List.countP_filter
  rw [hgroups, sum_countP_comm, ← sum_map_ite]
  congr 1
  refine List.map_congr_left fun a ha => ?_
  have hone : (rows.map key).dedup.countP (fun k => decide (key a = k)) = 1 := by
    have hmem : key a ∈ (rows.map key).dedup := List.mem_dedup.mpr (List.mem_map_of_mem ha)
    rw [← List.count_eq_one_of_mem (List.nodup_dedup _) hmem, List.count]
    refine List.countP_congr fun k _ => ?_
    rw [decide_eq_true_eq, beq_iff_eq, eq_comm]
  by_cases hp : p a = true
  · simp only [hp, Bool.true_and, if_true]
    exact hone
  · simp [hp]

/-- A join with groups on their key does not repeat a left row. -/
theorem leftJoin_groupBy (on : β → κ → Bool) (left : List β) (key : α → κ) (rows : List α)
    (hon : ∀ b k k', on b k = true → on b k' = true → k = k') :
    leftJoin (fun b g => on b g.1) left (groupBy key rows) =
      left.map fun b => (b, (groupBy key rows).find? fun g => on b g.1) := by
  refine leftJoin_eq_map fun b _ => ?_
  have hkeys := ((nodup_keys_groupBy key rows).filter fun k => on b k)
  rw [List.filter_map] at hkeys
  have hsame : ∀ k ∈ ((groupBy key rows).filter fun g => on b g.1).map Prod.fst,
      ∀ k' ∈ ((groupBy key rows).filter fun g => on b g.1).map Prod.fst, k = k' := by
    intro k hk k' hk'
    obtain ⟨g, hg, rfl⟩ := List.mem_map.mp hk
    obtain ⟨g', hg', rfl⟩ := List.mem_map.mp hk'
    exact hon b _ _ (List.mem_filter.mp hg).2 (List.mem_filter.mp hg').2
  rw [← List.length_map Prod.fst]
  exact length_le_one_of_nodup hkeys hsame

end Group

/-- The row of a group from which a `SELECT` takes its bare columns; which one is left open. -/
structure Pick (α : Type*) where
  row : List α → Option α
  mem : ∀ {group a}, row group = some a → a ∈ group

/-- What SQLite reads of a text, character by character: a NUL ends it. -/
def cString (s : List Char) : List Char := s.takeWhile (· ≠ '\x00')

/-- `%` stands for any text and `_` for any character; ASCII letters match in either case. -/
def patternCompare : List Char → List Char → Bool
  | [], text => text.isEmpty
  | '%' :: pattern, text => text.tails.any (patternCompare pattern)
  | '_' :: pattern, text =>
    match text with
    | [] => false
    | _ :: rest => patternCompare pattern rest
  | c :: pattern, text =>
    match text with
    | [] => false
    | d :: rest => c.toLower == d.toLower && patternCompare pattern rest

/-- `text LIKE pattern` -/
def like (pattern text : List Char) : Bool := patternCompare (cString pattern) (cString text)

end Sql
