import Netwatch.Sql.Query

/-!
# The latest row of each group

`SELECT … WHERE ts = (SELECT MAX(ts) … of the same key) GROUP BY key`. Of the rows of a key that
are equally late, any may be the one that is given.

## Main results

- `of_mem_latest` — nothing later has the same key
- `length_filter_latest_le` — a key is given once
- `filter_latest_of_increasing` — of rows that have come in order, the last one is given
-/

namespace Sql

variable {α κ : Type*} [DecidableEq κ]

def latest (key : α → κ) (ts : α → ℤ) (rows : List α) : List α :=
  let newest := rows.filter fun a =>
    ((rows.filter fun b => key b = key a).map ts).max? = some (ts a)
  (groupBy key newest).filterMap fun g => g.2.head?

variable {key : α → κ} {ts : α → ℤ} {rows : List α}

/-- What is given for a key is found under that key. -/
theorem filter_filterMap_keys {given : κ → Option α} (hkey : ∀ k a, given k = some a → key a = k)
    {ks : List κ} (hnodup : ks.Nodup) (k : κ) :
    ((ks.filterMap given).filter fun a => key a = k) =
      if k ∈ ks then (given k).toList else [] := by
  induction ks with
  | nil => rfl
  | cons k' ks ih =>
    obtain ⟨hnew, hnodup⟩ := List.nodup_cons.mp hnodup
    have hrest := ih hnodup
    cases hgiven : given k' with
    | none =>
      rw [List.filterMap_cons_none hgiven, hrest]
      by_cases hk : k = k'
      · rw [hk, if_neg hnew, hgiven, if_pos List.mem_cons_self]
        rfl
      · simp only [List.mem_cons, hk, false_or]
    | some a =>
      rw [List.filterMap_cons_some hgiven]
      by_cases hk : k = k'
      · rw [← hk] at hgiven hnew
        rw [List.filter_cons_of_pos (by simpa using hkey k a hgiven), hrest, if_neg hnew, ← hk,
          if_pos List.mem_cons_self, hgiven]
        rfl
      · have hother : ¬ key a = k := fun heq => hk (heq.symm.trans (hkey k' a hgiven))
        rw [List.filter_cons_of_neg (by simpa using hother), hrest]
        simp only [List.mem_cons, hk, false_or]

/-- One row of each group, of which those with some key are asked for. -/
theorem filter_heads_groupBy (key : α → κ) (rows : List α) (k : κ) :
    (((groupBy key rows).filterMap fun g => g.2.head?).filter fun a => key a = k) =
      (rows.filter fun a => key a = k).head?.toList := by
  have hkey : ∀ k a, (rows.filter fun a => key a = k).head? = some a → key a = k :=
    fun k a ha => of_decide_eq_true (List.mem_filter.mp (List.mem_of_head? ha)).2
  rw [groupBy, List.filterMap_map]
  refine (filter_filterMap_keys hkey (List.nodup_dedup _) k).trans ?_
  split
  · rfl
  · next hk =>
    have hnone : (rows.filter fun a => key a = k) = [] := by
      rw [List.filter_eq_nil_iff]
      intro a ha hcon
      exact hk (List.mem_dedup.mpr (of_decide_eq_true hcon ▸ List.mem_map_of_mem ha))
    rw [hnone]
    rfl

theorem filter_latest (key : α → κ) (ts : α → ℤ) (rows : List α) (k : κ) :
    ((latest key ts rows).filter fun a => key a = k) =
      ((rows.filter fun a => key a = k).filter fun a =>
        ((rows.filter fun b => key b = k).map ts).max? = some (ts a)).head?.toList := by
  rw [latest, filter_heads_groupBy, List.filter_filter, List.filter_filter]
  congr 2
  refine List.filter_congr fun a _ => ?_
  by_cases hk : key a = k
  · simp only [hk, decide_true, Bool.true_and, Bool.and_true]
  · simp only [hk, decide_false, Bool.false_and, Bool.and_false]

theorem length_filter_latest_le (key : α → κ) (ts : α → ℤ) (rows : List α) (k : κ) :
    ((latest key ts rows).filter fun a => key a = k).length ≤ 1 := by
  rw [filter_latest]
  cases List.head? _ <;> simp

theorem of_mem_latest {a : α} (h : a ∈ latest key ts rows) :
    a ∈ rows ∧ ∀ b ∈ rows, key b = key a → ts b ≤ ts a := by
  have hmem : a ∈ (latest key ts rows).filter fun b => key b = key a :=
    List.mem_filter.mpr ⟨h, decide_eq_true rfl⟩
  rw [filter_latest, Option.mem_toList] at hmem
  obtain ⟨hrow, hmax⟩ := List.mem_filter.mp (List.mem_of_head? hmem)
  refine ⟨List.mem_of_mem_filter hrow, fun b hb hkey => ?_⟩
  have hle := (List.max?_eq_some_iff.mp (of_decide_eq_true hmax)).2 (ts b)
  exact hle (List.mem_map_of_mem (List.mem_filter.mpr ⟨hb, decide_eq_true hkey⟩))

/-- Rows with one key that have come in order. -/
theorem filter_max_of_increasing (h : rows.Pairwise fun a b => ts a < ts b) {a : α}
    (hlast : rows.getLast? = some a) :
    (rows.filter fun b => (rows.map ts).max? = some (ts b)) = [a] := by
  obtain ⟨before, rfl⟩ := List.getLast?_eq_some_iff.mp hlast
  have hbefore : ∀ b ∈ before, ts b < ts a := fun b hb =>
    (List.pairwise_append.mp h).2.2 b hb a (List.mem_singleton_self a)
  have hmax : ((before ++ [a]).map ts).max? = some (ts a) := by
    rw [List.max?_eq_some_iff]
    refine ⟨List.mem_map_of_mem (by simp), fun x hx => ?_⟩
    obtain ⟨b, hb, rfl⟩ := List.mem_map.mp hx
    obtain hb | hb := List.mem_append.mp hb
    · exact (hbefore b hb).le
    · rw [List.mem_singleton.mp hb]
  have hnone : (before.filter fun b => decide (some (ts a) = some (ts b))) = [] := by
    rw [List.filter_eq_nil_iff]
    intro b hb hcon
    have hlt := hbefore b hb
    have heq : ts a = ts b := Option.some.inj (of_decide_eq_true hcon)
    omega
  rw [hmax, List.filter_append, hnone]
  simp

/-- The last of them is the last of those that are left, if it is left. -/
theorem getLast?_of_sublist {left : List α} (hleft : left.Sublist rows)
    (h : rows.Pairwise fun a b => ts a < ts b) {a : α} (hlast : rows.getLast? = some a)
    (ha : a ∈ left) : left.getLast? = some a := by
  obtain ⟨before, rfl⟩ := List.getLast?_eq_some_iff.mp hlast
  obtain ⟨front, back, rfl, hfront, hback⟩ := List.sublist_append_iff.mp hleft
  obtain rfl | rfl := List.sublist_singleton.mp hback
  · rw [List.append_nil] at ha
    have hlt := (List.pairwise_append.mp h).2.2 a (hfront.subset ha) a (List.mem_singleton_self a)
    exact absurd hlt (lt_irrefl _)
  · exact List.getLast?_concat

theorem filter_latest_of_increasing {k : κ} {a : α}
    (h : (rows.filter fun a => key a = k).Pairwise fun a b => ts a < ts b)
    (hlast : (rows.filter fun a => key a = k).getLast? = some a) :
    ((latest key ts rows).filter fun a => key a = k) = [a] := by
  rw [filter_latest, filter_max_of_increasing h hlast]
  rfl

end Sql
