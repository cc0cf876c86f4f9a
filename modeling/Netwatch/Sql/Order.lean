import Netwatch.Sql.Query

/-!
# `ORDER BY`

Rows are put in an order that is total and transitive, and that tells the rows of one table
apart, as an order that ends with the primary key does. Then there is one result, and it does not
matter whether rows are left out before or after.

## Main results

- `filter_insertionSort` — `WHERE` and `ORDER BY` commute
- `insertionSort_split` — rows that come before all others are the beginning of the result
- `page_append` — a page that ends within the beginning does not see the rest
-/

namespace Sql

variable {α : Type*} {r : α → α → Prop}

/-- The order tells the rows apart. -/
def Separates (r : α → α → Prop) (rows : List α) : Prop :=
  ∀ a ∈ rows, ∀ b ∈ rows, r a b → r b a → a = b

theorem eq_of_perm_of_separates {rows rows' : List α} (hsep : Separates r rows)
    (hperm : rows.Perm rows') (h : rows.Pairwise r) (h' : rows'.Pairwise r) : rows = rows' :=
  hperm.eq_of_pairwise (fun a b ha hb => hsep a ha b (hperm.mem_iff.mpr hb)) h h'

theorem page_append {limit offset : ℕ} {front : List α} (rest : List α)
    (h : offset + limit ≤ front.length) :
    page limit offset (front ++ rest) = page limit offset front := by
  rw [page, page, List.drop_append_of_le_length (by omega),
    List.take_append_of_le_length (by rw [List.length_drop]; omega)]

variable [DecidableRel r]

theorem separates_insertionSort {rows : List α} (h : Separates r rows) :
    Separates r (rows.insertionSort r) := by
  intro a ha b hb
  rw [List.mem_insertionSort] at ha hb
  exact h a ha b hb

variable [Std.Total r] [IsTrans α r]

theorem filter_insertionSort {rows : List α} (h : Separates r rows) (p : α → Bool) :
    (rows.filter p).insertionSort r = (rows.insertionSort r).filter p := by
  have hperm := List.perm_insertionSort r rows
  have hsorted := List.pairwise_insertionSort r rows
  symm
  refine eq_of_perm_of_separates ?_ ?_ (hsorted.sublist List.filter_sublist)
    (List.pairwise_insertionSort r (rows.filter p))
  · intro a ha b hb
    exact separates_insertionSort h a (List.mem_of_mem_filter ha) b (List.mem_of_mem_filter hb)
  · exact (hperm.filter p).trans (List.perm_insertionSort r (rows.filter p)).symm

/-- Rows that come before all others are the beginning of the result. -/
theorem insertionSort_split {rows : List α} (h : Separates r rows) (p : α → Bool)
    (hfirst : ∀ a ∈ rows, ∀ b ∈ rows, p a = true → p b = false → r a b) :
    rows.insertionSort r =
      (rows.filter p).insertionSort r ++ (rows.filter fun a => !p a).insertionSort r := by
  refine eq_of_perm_of_separates (separates_insertionSort h) ?_
    (List.pairwise_insertionSort r rows) ?_
  · have hparts := (List.perm_insertionSort r (rows.filter p)).append
      (List.perm_insertionSort r (rows.filter fun a => !p a))
    exact (List.perm_insertionSort r rows).trans
      ((List.filter_append_perm p rows).symm.trans hparts.symm)
  · rw [List.pairwise_append]
    refine ⟨List.pairwise_insertionSort r _, List.pairwise_insertionSort r _, ?_⟩
    intro a ha b hb
    rw [List.mem_insertionSort, List.mem_filter] at ha hb
    exact hfirst a ha.1 b hb.1 ha.2 (by simpa using hb.2)

end Sql
