import Netwatch.RustStd.Lines
import Mathlib.Data.List.Forall2

/-!
# Fields of a text

Texts that are laid out in lines, each of which shows some words with white space around them,
and what `str::lines` and `str::split_whitespace` make of them.

## Main definitions

- `Shows` — a text consists of these words and of white space
- `Prints` — a text has some lines of heading, and then a line for each item

## Main results

- `shows_iff` — `split_whitespace` finds the words, and nothing else
- `lines_ofLines` — the lines of a text that is put together from lines
- `Prints.forall₂` — the lines behind the heading are those of the items
-/

namespace RustStd.Str

/-! ### Words -/

/-- Some characters, none of them white space. -/
def IsWord (w : Str) : Prop := w ≠ [] ∧ ∀ c ∈ w, isWhitespace c = false

/-- The words of a text, from left to right. -/
inductive Shows : List Str → Str → Prop
  | nil : Shows [] []
  | blank {ws : List Str} {s : Str} {c : Char} (hc : isWhitespace c = true) (hs : Shows ws s) :
      Shows ws (c :: s)
  | word {ws : List Str} {w s : Str} (hw : IsWord w)
      (hstop : ∀ c ∈ s.head?, isWhitespace c = true) (hs : Shows ws s) : Shows (w :: ws) (w ++ s)

theorem splitWhitespace_blank {c : Char} (hc : isWhitespace c = true) (s : Str) :
    splitWhitespace (c :: s) = splitWhitespace s := by
  rw [splitWhitespace, List.splitOnP_cons_eq_if_modifyHead, if_pos hc]
  rfl

theorem splitWhitespace_word {w s : Str} (hw : IsWord w)
    (hstop : ∀ c ∈ s.head?, isWhitespace c = true) :
    splitWhitespace (w ++ s) = w :: splitWhitespace s := by
  cases s with
  | nil =>
    rw [List.append_nil, splitWhitespace, List.splitOnP_eq_singleton hw.2]
    simp [splitWhitespace, hw.1]
  | cons c s =>
    have hc : isWhitespace c = true := hstop c rfl
    rw [splitWhitespace_blank hc, splitWhitespace,
      List.splitOnP_append_cons_of_forall_mem hw.2 c hc,
      List.filter_cons_of_pos (by simpa using hw.1), splitWhitespace]

theorem splitWhitespace_of_shows {ws : List Str} {s : Str} (h : Shows ws s) :
    splitWhitespace s = ws := by
  induction h with
  | nil => rfl
  | blank hc _ ih => rw [splitWhitespace_blank hc, ih]
  | word hw hstop _ ih => rw [splitWhitespace_word hw hstop, ih]

theorem shows_splitWhitespace (s : Str) : Shows (splitWhitespace s) s := by
  induction hn : s.length using Nat.strong_induction_on generalizing s with
  | _ n ih =>
    cases s with
    | nil => exact .nil
    | cons c s =>
      rw [List.length_cons] at hn
      by_cases hc : isWhitespace c = true
      · rw [splitWhitespace_blank hc]
        exact .blank hc (ih s.length (by omega) s rfl)
      · -- the word ends where the next white space is
        obtain ⟨w, rest, hsplit, hw, hstop⟩ : ∃ w rest, c :: s = w ++ rest ∧ IsWord w ∧
            ∀ d ∈ rest.head?, isWhitespace d = true := by
          refine ⟨(c :: s).takeWhile fun d => !isWhitespace d,
            (c :: s).dropWhile fun d => !isWhitespace d,
            List.takeWhile_append_dropWhile.symm, ⟨?_, fun d hd => ?_⟩, fun d hd => ?_⟩
          · simp [hc]
          · simpa using List.mem_takeWhile_imp hd
          · have hfirst := List.head?_dropWhile_not (fun d => !isWhitespace d) (c :: s)
            rw [Option.mem_def.mp hd] at hfirst
            simpa using hfirst
        have hlength := congrArg List.length hsplit
        have hpos := List.length_pos_of_ne_nil hw.1
        rw [List.length_cons, List.length_append] at hlength
        rw [hsplit, splitWhitespace_word hw hstop]
        exact .word hw hstop (ih rest.length (by omega) rest rfl)

theorem shows_iff {ws : List Str} {s : Str} : Shows ws s ↔ splitWhitespace s = ws :=
  ⟨splitWhitespace_of_shows, fun h => h ▸ shows_splitWhitespace s⟩

theorem splitWhitespace_concat {c : Char} (hc : isWhitespace c = true) (s : Str) :
    splitWhitespace (s ++ [c]) = splitWhitespace s := by
  rw [splitWhitespace, List.splitOnP_append_cons s [] hc, List.filter_append]
  exact List.append_nil _

/-- A carriage return at the end of a line is white space. -/
theorem Shows.of_concat {ws : List Str} {s : Str} {c : Char} (hc : isWhitespace c = true)
    (h : Shows ws (s ++ [c])) : Shows ws s := by
  rw [shows_iff, splitWhitespace_concat hc] at h
  exact shows_iff.mpr h

/-! ### Lines -/

/-- Each line with a line feed behind it. -/
def ofLines (ls : List Str) : Str := ls.flatMap fun l => l ++ ['\n']

theorem ofLines_cons (l : Str) (ls : List Str) : ofLines (l :: ls) = l ++ ['\n'] ++ ofLines ls :=
  List.flatMap_cons

/-- Without the carriage return before the line feed. -/
def chomp (l : Str) : Str := (stripSuffixChar '\r' l).getD l

theorem lineOf_concat (l : Str) : lineOf (l ++ ['\n']) = chomp l := by
  rw [lineOf, stripSuffixChar_concat, chomp]

theorem lines_ofLines {ls : List Str} (h : ∀ l ∈ ls, '\n' ∉ l) :
    lines (ofLines ls) = ls.map chomp := by
  induction ls with
  | nil => rfl
  | cons l ls ih =>
    obtain ⟨hl, hls⟩ := List.forall_mem_cons.mp h
    rw [ofLines_cons, lines, splitInclusive_append (.inr ⟨l, rfl⟩), splitInclusive_line hl,
      List.map_append, List.map_singleton, lineOf_concat]
    exact congrArg _ (ih hls)

variable {α : Type*}

/-- Some lines of heading, and a line for each item. -/
def Prints (R : α → Str → Prop) (heading : ℕ) (items : List α) (text : Str) : Prop :=
  ∃ hs ls, hs.length = heading ∧ (∀ l ∈ hs ++ ls, '\n' ∉ l) ∧ text = ofLines (hs ++ ls) ∧
    List.Forall₂ R items ls

theorem Prints.forall₂ {R : α → Str → Prop} {heading : ℕ} {items : List α} {text : Str}
    (h : Prints R heading items text) (hchomp : ∀ a l, R a (l ++ ['\r']) → R a l) :
    List.Forall₂ R items ((lines text).drop heading) := by
  obtain ⟨hs, ls, rfl, hfeed, rfl, hrows⟩ := h
  rw [lines_ofLines hfeed, List.map_append, List.drop_left' (List.length_map _),
    List.forall₂_map_right_iff]
  refine hrows.imp fun a l hrow => ?_
  rw [chomp]
  cases hstrip : stripSuffixChar '\r' l with
  | none => exact hrow
  | some t =>
    rw [stripSuffixChar_eq_some hstrip] at hrow
    exact hchomp a t hrow

/-- Where every line is read by itself. -/
theorem Prints.filterMap {R : α → Str → Prop} {heading : ℕ} {items : List α} {text : Str}
    (h : Prints R heading items text) (hchomp : ∀ a l, R a (l ++ ['\r']) → R a l) {β : Type*}
    {f : Str → Option β} {g : α → Option β} (hread : ∀ a l, R a l → f l = g a) :
    ((lines text).drop heading).filterMap f = items.filterMap g := by
  have hlines := h.forall₂ hchomp
  clear h
  generalize (lines text).drop heading = ls at hlines
  induction hlines with
  | nil => rfl
  | cons hline _ ih => rw [List.filterMap_cons, List.filterMap_cons, hread _ _ hline, ih]

end RustStd.Str
