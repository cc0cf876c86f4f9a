import Netwatch.RustStd.Str

/-!
# Paths

`Path::with_extension` on a path in its textual form. Separators and `.` components at the end
of a path are not part of its file name, and a path that ends in `..` has none.

## Main definitions

- `fileStem` — a file name up to its last dot
- `withExtension` — the path with another extension, or none before
-/

namespace RustStd.Path

/-- `Path::file_stem`; a dot at the very start belongs to the stem. -/
def fileStem (name : Str) : Str :=
  match name.rdropWhile (· ≠ '.') with
  | [] => name
  | ['.'] => name
  | before => before.dropLast

/-- `Path::with_extension`, with an extension that is not empty. -/
def withExtension (path ext : Str) : Str :=
  match (path.splitOn '/').reverse.dropWhile fun part => part = [] ∨ part = ['.'] with
  | [] => path
  | name :: front =>
    if name = "..".toList then path
    else Str.join ['/'] ((fileStem name ++ '.' :: ext) :: front).reverse

example : withExtension "/var/lists/ab.list".toList "tmp".toList = "/var/lists/ab.tmp".toList := by
  decide

theorem join_concat {sep part : Str} {parts : List Str} (h : parts ≠ []) :
    Str.join sep (parts ++ [part]) = Str.join sep parts ++ sep ++ part := by
  induction parts with
  | nil => exact absurd rfl h
  | cons first parts ih =>
    by_cases hparts : parts = []
    · subst hparts
      simp [Str.join, List.intercalate_cons_cons]
    · have hconcat : parts ++ [part] ≠ [] := by simp
      rw [Str.join, List.cons_append, List.intercalate_cons_of_ne_nil hconcat, ← Str.join,
        ih hparts, Str.join, Str.join, List.intercalate_cons_of_ne_nil hparts]
      simp only [List.append_assoc]

theorem fileStem_append {stem ext : Str} (hstem : stem ≠ []) (hext : '.' ∉ ext) :
    fileStem (stem ++ '.' :: ext) = stem := by
  have hdrop : (stem ++ '.' :: ext).rdropWhile (· ≠ '.') = stem ++ ['.'] := by
    have hwhile : ext.reverse.dropWhile (· ≠ '.') = [] := by
      rw [List.dropWhile_eq_nil_iff]
      intro c hc
      simpa using ne_of_mem_of_not_mem (List.mem_reverse.mp hc) hext
    rw [List.rdropWhile, List.reverse_append, List.reverse_cons, List.append_assoc,
      List.dropWhile_append, hwhile]
    simp
  rw [fileStem, hdrop]
  split
  · next heq => simp at heq
  · next heq =>
    have hnil : stem ++ ['.'] = [] ++ ['.'] := heq
    exact absurd (List.append_cancel_right hnil) hstem
  · exact List.dropLast_concat

theorem withExtension_append {dir name ext : Str} (hname : '/' ∉ name) (hnil : name ≠ [])
    (hdot : name ≠ ['.']) (hdots : name ≠ "..".toList) :
    withExtension (dir ++ '/' :: name) ext = dir ++ '/' :: (fileStem name ++ '.' :: ext) := by
  have hsplit : (dir ++ '/' :: name).splitOn '/' = dir.splitOn '/' ++ [name] := by
    rw [List.splitOn_append_cons_self, List.splitOn_eq_singleton hname]
  rw [withExtension, hsplit, List.reverse_append, List.reverse_singleton, List.singleton_append,
    List.dropWhile_cons_of_neg (by simp [hnil, hdot])]
  dsimp only
  rw [if_neg hdots, List.reverse_cons, List.reverse_reverse,
    join_concat (List.splitOn_ne_nil '/' dir), Str.join, List.intercalate_splitOn]
  simp

end RustStd.Path
