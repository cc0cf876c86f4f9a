import Mathlib.Computability.Language
import Mathlib.Data.List.Infix
import Mathlib.Data.List.TakeWhile
import Netwatch.Sql.Query

/-!
# What `LIKE` means

The matcher tries every split of the text. A pattern stands for a language, the product of what
its characters stand for, and the matcher decides it. Of pattern and text it reads what comes
before a NUL.

## Main definitions

- `denote` — the texts a pattern stands for
- `SameFold` — equal but for the case of ASCII letters
- `Searchable` — the pattern for a search text is read to its end

## Main results

- `patternCompare_iff` — the matcher decides the language
- `like_of_contains` — a text that contains the search text is found
- `like_contains_iff` — and no other, if the search text has no wildcards
-/

namespace Sql

/-- One character with a property. -/
def oneChar (P : Char → Prop) : Language Char := {t | ∃ d, t = [d] ∧ P d}

/-- The texts that one character of a pattern stands for. -/
def denoteChar (c : Char) : Language Char :=
  if c = '%' then ⊤
  else if c = '_' then oneChar fun _ => True
  else oneChar fun d => c.toLower = d.toLower

def denote (pattern : List Char) : Language Char := (pattern.map denoteChar).prod

theorem denote_cons (c : Char) (pattern : List Char) :
    denote (c :: pattern) = denoteChar c * denote pattern := by
  rw [denote, List.map_cons, List.prod_cons, denote]

theorem denote_append (pattern pattern' : List Char) :
    denote (pattern ++ pattern') = denote pattern * denote pattern' := by
  rw [denote, List.map_append, List.prod_append, denote, denote]

theorem mem_percent (t : List Char) : t ∈ denoteChar '%' := trivial

theorem denoteChar_underscore : denoteChar '_' = oneChar fun _ => True := rfl

theorem denoteChar_of_plain {c : Char} (hany : c ≠ '%') (hone : c ≠ '_') :
    denoteChar c = oneChar fun d => c.toLower = d.toLower := by
  rw [denoteChar, if_neg hany, if_neg hone]

theorem mem_oneChar_mul {P : Char → Prop} {L : Language Char} {t : List Char} :
    t ∈ oneChar P * L ↔ ∃ d rest, t = d :: rest ∧ P d ∧ rest ∈ L := by
  rw [Language.mem_mul]
  constructor
  · rintro ⟨u, ⟨d, rfl, hd⟩, rest, hrest, rfl⟩
    exact ⟨d, rest, rfl, hd, hrest⟩
  · rintro ⟨d, rest, rfl, hd, hrest⟩
    exact ⟨[d], ⟨d, rfl, hd⟩, rest, hrest, rfl⟩

/-- The matcher accepts exactly the texts of the language. -/
theorem patternCompare_iff (pattern text : List Char) :
    patternCompare pattern text = true ↔ text ∈ denote pattern := by
  induction pattern generalizing text with
  | nil =>
    rw [patternCompare, List.isEmpty_iff, denote, List.map_nil, List.prod_nil, Language.mem_one]
  | cons c pattern ih =>
    rw [denote_cons]
    by_cases hany : c = '%'
    · subst hany
      rw [patternCompare, List.any_eq_true, Language.mem_mul]
      constructor
      · rintro ⟨rest, hrest, hlike⟩
        obtain ⟨skipped, rfl⟩ := (List.mem_tails _ _).mp hrest
        exact ⟨skipped, mem_percent skipped, rest, (ih rest).mp hlike, rfl⟩
      · rintro ⟨skipped, -, rest, hrest, rfl⟩
        refine ⟨rest, ?_, (ih rest).mpr hrest⟩
        exact (List.mem_tails _ _).mpr (List.suffix_append skipped rest)
    · by_cases hone : c = '_'
      · subst hone
        rw [denoteChar_underscore, mem_oneChar_mul]
        cases text with
        | nil => simp [patternCompare]
        | cons d rest => simp [patternCompare, ih]
      · rw [denoteChar_of_plain hany hone, mem_oneChar_mul]
        cases text with
        | nil => simp [patternCompare]
        | cons d rest => simp [patternCompare, ih]

/-- Equal but for the case of ASCII letters. -/
def SameFold (s t : List Char) : Prop := s.map Char.toLower = t.map Char.toLower

instance (s t : List Char) : Decidable (SameFold s t) := inferInstanceAs (Decidable (_ = _))

theorem sameFold_cons {c : Char} {s t : List Char} :
    SameFold (c :: s) t ↔ ∃ d rest, t = d :: rest ∧ c.toLower = d.toLower ∧ SameFold s rest := by
  cases t with
  | nil => simp [SameFold]
  | cons d rest => simp [SameFold]

/-- No wildcard stands in the text. -/
def Plain (s : List Char) : Prop := ∀ c ∈ s, c ≠ '%' ∧ c ≠ '_'

instance (s : List Char) : Decidable (Plain s) := inferInstanceAs (Decidable (∀ c ∈ s, _))

theorem mem_denote_plain {s : List Char} (hs : Plain s) (t : List Char) :
    t ∈ denote s ↔ SameFold s t := by
  induction s generalizing t with
  | nil =>
    rw [denote, List.map_nil, List.prod_nil, Language.mem_one]
    constructor
    · rintro rfl
      rfl
    · exact fun h => List.map_eq_nil_iff.mp h.symm
  | cons c s ih =>
    obtain ⟨⟨hany, hone⟩, hrest⟩ := List.forall_mem_cons.mp hs
    rw [denote_cons, denoteChar_of_plain hany hone, mem_oneChar_mul, sameFold_cons]
    simp only [ih hrest]

/-- A wildcard stands for itself too. -/
theorem mem_denote_of_sameFold {s t : List Char} (h : SameFold s t) : t ∈ denote s := by
  induction s generalizing t with
  | nil =>
    have ht : t = [] := List.map_eq_nil_iff.mp h.symm
    rw [ht]
    exact (patternCompare_iff [] []).mp rfl
  | cons c s ih =>
    obtain ⟨d, rest, rfl, hd, hrest⟩ := sameFold_cons.mp h
    rw [denote_cons]
    by_cases hany : c = '%'
    · subst hany
      exact Language.append_mem_mul (mem_percent [d]) (ih hrest)
    · by_cases hone : c = '_'
      · rw [hone, denoteChar_underscore, mem_oneChar_mul]
        exact ⟨d, rest, rfl, trivial, ih hrest⟩
      · rw [denoteChar_of_plain hany hone, mem_oneChar_mul]
        exact ⟨d, rest, rfl, hd, ih hrest⟩

/-- Some part of the text is the search text, but for the case of ASCII letters. -/
def Contains (s text : List Char) : Prop :=
  ∃ before found after, text = before ++ found ++ after ∧ SameFold s found

theorem patternCompare_contains (s text : List Char) :
    patternCompare ('%' :: s ++ ['%']) text = true ↔
      ∃ before found after, text = before ++ found ++ after ∧ found ∈ denote s := by
  have hlast : denote ['%'] = denoteChar '%' := by
    rw [denote, List.map_singleton, List.prod_singleton]
  rw [patternCompare_iff, denote_append, denote_cons, hlast]
  constructor
  · intro h
    obtain ⟨front, hfront, after, -, rfl⟩ := Language.mem_mul.mp h
    obtain ⟨before, -, found, hfound, rfl⟩ := Language.mem_mul.mp hfront
    exact ⟨before, found, after, rfl, hfound⟩
  · rintro ⟨before, found, after, rfl, hfound⟩
    exact Language.append_mem_mul
      (Language.append_mem_mul (mem_percent before) hfound) (mem_percent after)

/-! ### Searches -/

/-- A search text without a NUL, whose pattern is within `SQLITE_MAX_LIKE_PATTERN_LENGTH` bytes. -/
structure Searchable (s : List Char) : Prop where
  noNul : '\x00' ∉ s
  fits : (s.map Char.utf8Size).sum + 2 ≤ 50000

theorem cString_of_noNul {s : List Char} (h : '\x00' ∉ s) : cString s = s := by
  rw [cString, List.takeWhile_eq_self_iff]
  intro c hc
  rw [decide_eq_true_eq]
  rintro rfl
  exact h hc

theorem Searchable.like_eq {s : List Char} (h : Searchable s) (text : List Char) :
    like ('%' :: s ++ ['%']) text = patternCompare ('%' :: s ++ ['%']) (cString text) := by
  have hpattern : '\x00' ∉ '%' :: s ++ ['%'] := by
    have hnot := h.noNul
    simp [hnot]
  rw [like, cString_of_noNul hpattern]

/-- A search finds every text that contains what is searched for. -/
theorem like_of_contains {s text : List Char} (hs : Searchable s) (h : Contains s (cString text)) :
    like ('%' :: s ++ ['%']) text = true := by
  obtain ⟨before, found, after, htext, hfound⟩ := h
  rw [hs.like_eq, patternCompare_contains]
  exact ⟨before, found, after, htext, mem_denote_of_sameFold hfound⟩

theorem like_contains_iff {s : List Char} (hs : Searchable s) (hplain : Plain s)
    (text : List Char) : like ('%' :: s ++ ['%']) text = true ↔ Contains s (cString text) := by
  rw [hs.like_eq, patternCompare_contains]
  simp only [mem_denote_plain hplain]
  exact Iff.rfl

end Sql
