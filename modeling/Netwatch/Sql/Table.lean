import Mathlib.Data.List.Nodup

/-!
# Tables with a primary key

A table is a list of rows no two of which share their key. The operations are those of
`UPDATE`, `DELETE` and `INSERT … ON CONFLICT DO UPDATE`; each is characterised by what it
does to the row found under a key.

## Main definitions

- `Table` — rows with pairwise different keys
- `AutoTable` — a table whose integer key is handed out by the table (`AUTOINCREMENT`)
- `Table.get`, `Table.update`, `Table.keep`, `Table.upsert`, `AutoTable.insert`
-/

namespace Sql

structure Table {κ ρ : Type*} (key : ρ → κ) where
  rows : List ρ
  nodup : (rows.map key).Nodup

namespace Table

variable {κ ρ : Type*} {key : ρ → κ}

def empty : Table key := ⟨[], List.nodup_nil⟩

/-- `UPDATE` of columns that are not part of the key. -/
def update (t : Table key) (f : ρ → ρ) (hf : ∀ r, key (f r) = key r) : Table key where
  rows := t.rows.map f
  nodup := by
    have hkeys : key ∘ f = key := funext hf
    rw [List.map_map, hkeys]
    exact t.nodup

/-- `DELETE` of the rows that do not satisfy `p`. -/
def keep (t : Table key) (p : ρ → Bool) : Table key where
  rows := t.rows.filter p
  nodup := t.nodup.sublist (List.filter_sublist.map key)

theorem eq_of_key_eq (t : Table key) {r r' : ρ} (hr : r ∈ t.rows) (hr' : r' ∈ t.rows)
    (h : key r = key r') : r = r' :=
  List.inj_on_of_nodup_map t.nodup hr hr' h

/-- At most one row satisfies `p` when the rows that do have the same key. -/
theorem length_filter_le_one_iff (t : Table key) (p : ρ → Bool) :
    (t.rows.filter p).length ≤ 1 ↔
      ∀ r ∈ t.rows, ∀ r' ∈ t.rows, p r = true → p r' = true → key r = key r' := by
  constructor
  · intro h r hr r' hr' hp hp'
    have hmem : r ∈ t.rows.filter p := List.mem_filter.mpr ⟨hr, hp⟩
    have hmem' : r' ∈ t.rows.filter p := List.mem_filter.mpr ⟨hr', hp'⟩
    obtain ⟨a, ha⟩ := List.length_eq_one_iff.mp (Nat.le_antisymm h (List.length_pos_of_mem hmem))
    rw [ha, List.mem_singleton] at hmem hmem'
    rw [hmem, hmem']
  · intro h
    have hnodup : (t.rows.filter p).Nodup := t.nodup.of_map.filter p
    match hm : t.rows.filter p with
    | [] => exact Nat.zero_le 1
    | [r] => exact Nat.le_refl 1
    | r :: r' :: rest =>
      obtain ⟨hr, hp⟩ := List.mem_filter.mp (hm ▸ List.mem_cons_self : r ∈ t.rows.filter p)
      obtain ⟨hr', hp'⟩ := List.mem_filter.mp
        (hm ▸ List.mem_cons_of_mem r List.mem_cons_self : r' ∈ t.rows.filter p)
      have heq : r = r' := t.eq_of_key_eq hr hr' (h r hr r' hr' hp hp')
      rw [hm, heq] at hnodup
      simp at hnodup

variable [DecidableEq κ]

/-- The row stored under a key. -/
def get (t : Table key) (k : κ) : Option ρ := t.rows.find? fun r => key r = k

/-- `INSERT … ON CONFLICT (key) DO UPDATE`. -/
def upsert (t : Table key) (new : ρ) (merge : ρ → ρ) (hm : ∀ r, key (merge r) = key r) :
    Table key :=
  if h : ∃ r ∈ t.rows, key r = key new then
    t.update (fun r => if key r = key new then merge r else r)
      (fun r => by split <;> simp [hm])
  else
    { rows := t.rows ++ [new]
      nodup := by
        rw [List.map_append, List.map_singleton, List.nodup_append]
        refine ⟨t.nodup, List.nodup_singleton _, ?_⟩
        intro k hk k' hk' he
        obtain ⟨r, hr, rfl⟩ := List.mem_map.mp hk
        rw [List.mem_singleton] at hk'
        exact h ⟨r, hr, he.trans hk'⟩ }

theorem get_eq_some_iff {t : Table key} {k : κ} {r : ρ} :
    t.get k = some r ↔ r ∈ t.rows ∧ key r = k := by
  constructor
  · intro h
    have hkey : decide (key r = k) = true := List.find?_some (p := fun r => key r = k) h
    exact ⟨List.mem_of_find?_eq_some h, of_decide_eq_true hkey⟩
  · rintro ⟨hr, rfl⟩
    cases hfound : t.get (key r) with
    | none =>
      have hnone := List.find?_eq_none.mp hfound r hr
      exact absurd (decide_eq_true rfl) hnone
    | some r' =>
      have hkey : decide (key r' = key r) = true :=
        List.find?_some (p := fun r' => key r' = key r) hfound
      rw [t.eq_of_key_eq (List.mem_of_find?_eq_some hfound) hr (of_decide_eq_true hkey)]

theorem get_eq_none_iff {t : Table key} {k : κ} :
    t.get k = none ↔ ∀ r ∈ t.rows, key r ≠ k := by
  rw [get, List.find?_eq_none]
  simp

theorem mem_iff_get {t : Table key} {r : ρ} : r ∈ t.rows ↔ t.get (key r) = some r := by
  rw [get_eq_some_iff]
  simp

@[simp] theorem get_empty (k : κ) : (empty : Table key).get k = none := rfl

theorem get_update (t : Table key) (f : ρ → ρ) (hf : ∀ r, key (f r) = key r) (k : κ) :
    (t.update f hf).get k = (t.get k).map f := by
  rw [get, get, update, List.find?_map]
  have hsame : ((fun r => decide (key r = k)) ∘ f) = fun r => decide (key r = k) := by
    funext r
    simp [hf]
  rw [hsame]

/-- The upserted row is the merge of the old one, or the new one where there was none. -/
theorem get_upsert (t : Table key) (new : ρ) (merge : ρ → ρ)
    (hm : ∀ r, key (merge r) = key r) (k : κ) :
    (t.upsert new merge hm).get k =
      if k = key new then some ((t.get (key new)).elim new merge) else t.get k := by
  rw [upsert]
  split
  · next h =>
    obtain ⟨old, hold, hkey⟩ := h
    rw [get_update]
    by_cases hk : k = key new
    · subst hk
      rw [get_eq_some_iff.mpr ⟨hold, hkey⟩]
      simp [hkey]
    · rw [if_neg hk]
      cases hfound : t.get k with
      | none => rfl
      | some r =>
        have hr : key r ≠ key new := by rw [(get_eq_some_iff.mp hfound).2]; exact hk
        simp [hr]
  · next h =>
    have habsent : t.get (key new) = none :=
      get_eq_none_iff.mpr fun r hr he => h ⟨r, hr, he⟩
    simp only [get, List.find?_append]
    by_cases hk : k = key new
    · subst hk
      have hfind : t.rows.find? (fun r => decide (key r = key new)) = none := habsent
      simp [hfind]
    · have hnew : ¬ key new = k := fun he => hk he.symm
      simp [hk, hnew]

end Table

/-- `INTEGER PRIMARY KEY AUTOINCREMENT`: a key is never handed out twice, not even after
its row is deleted. -/
structure AutoTable {ρ : Type*} (id : ρ → ℕ) extends Table id where
  sequence : ℕ
  le_sequence : ∀ r ∈ rows, id r ≤ sequence

namespace AutoTable

variable {ρ : Type*} {id : ρ → ℕ}

def empty : AutoTable id where
  toTable := .empty
  sequence := 0
  le_sequence := fun _ h => absurd h List.not_mem_nil

def insert (t : AutoTable id) (mk : ℕ → ρ) (hmk : ∀ n, id (mk n) = n) : AutoTable id where
  rows := t.rows ++ [mk (t.sequence + 1)]
  nodup := by
    rw [List.map_append, List.map_singleton, List.nodup_append]
    refine ⟨t.nodup, List.nodup_singleton _, ?_⟩
    intro n hn n' hn' he
    obtain ⟨r, hr, rfl⟩ := List.mem_map.mp hn
    rw [List.mem_singleton] at hn'
    have hbound := t.le_sequence r hr
    rw [he, hn', hmk] at hbound
    omega
  sequence := t.sequence + 1
  le_sequence := by
    intro r hr
    obtain hr | hr := List.mem_append.mp hr
    · exact Nat.le_succ_of_le (t.le_sequence r hr)
    · have hid : id r = t.sequence + 1 := by rw [List.mem_singleton.mp hr, hmk]
      exact Nat.le_of_eq hid

def keep (t : AutoTable id) (p : ρ → Bool) : AutoTable id where
  toTable := t.toTable.keep p
  sequence := t.sequence
  le_sequence := fun r hr => t.le_sequence r (List.mem_of_mem_filter hr)

end AutoTable

end Sql
