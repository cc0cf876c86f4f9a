import Netwatch.RustStd.Str
import Mathlib.Data.Set.Insert

/-!
# Lines of a text

How `str::lines` and `str::trim` see a text that is extended by a line or written back from
its lines.

## Main definitions

- `Terminated` — every line of the text, the last one included, ends with a line feed
- `unlines` — `lines.join("\n") + "\n"`
- `listed` — the non-empty lines of a text, without the white space around them
-/

namespace RustStd.Str

/-! ### White space -/

theorem rdropWhile_append (p : Char → Bool) (s t : Str) :
    (s ++ t).rdropWhile p = if t.rdropWhile p = [] then s.rdropWhile p
      else s ++ t.rdropWhile p := by
  have hrev : t.rdropWhile p = (t.reverse.dropWhile p).reverse := rfl
  rw [List.rdropWhile, List.reverse_append, List.dropWhile_append]
  by_cases h : t.reverse.dropWhile p = []
  · rw [hrev, h]
    rfl
  · have hne : t.rdropWhile p ≠ [] := by rwa [hrev, ne_eq, List.reverse_eq_nil_iff]
    rw [if_neg hne, if_neg (by rwa [List.isEmpty_iff]), List.reverse_append,
      List.reverse_reverse, hrev]

theorem rdropWhile_cons_of_not {p : Char → Bool} {c : Char} (hc : p c = false) (s : Str) :
    (c :: s).rdropWhile p = c :: s.rdropWhile p := by
  have hone : [c].rdropWhile p = [c] := by simp [hc]
  have happend := rdropWhile_append p [c] s
  rw [hone] at happend
  rw [← List.singleton_append, happend]
  split
  · next h => rw [h]
  · rfl

theorem trim_eq_self_of_forall {s : Str} (h : ∀ c ∈ s, isWhitespace c = false) : trim s = s := by
  have hhead : s.dropWhile isWhitespace = s := by
    rw [List.dropWhile_eq_self_iff]
    intro hlen
    simp [h _ (List.getElem_mem hlen)]
  rw [trim, hhead, List.rdropWhile_eq_self_iff]
  intro hne
  simp [h _ (List.getLast_mem hne)]

theorem trim_append_of_forall (s : Str) {t : Str} (h : ∀ c ∈ t, isWhitespace c = true) :
    trim (s ++ t) = trim s := by
  induction t using List.reverseRecOn with
  | nil => simp
  | append_singleton t c ih =>
    have hc : isWhitespace c = true := h c (by simp)
    rw [← ih fun d hd => h d (List.mem_append_left _ hd), ← List.append_assoc, trim, trim,
      List.dropWhile_append]
    split
    · next hall =>
      have hnil : (s ++ t).dropWhile isWhitespace = [] := by simpa using hall
      rw [hnil]
      simp [hc]
    · rw [List.rdropWhile_concat_pos _ _ _ hc]

theorem trim_prepend_of_forall {t : Str} (h : ∀ c ∈ t, isWhitespace c = true) (s : Str) :
    trim (t ++ s) = trim s := by
  rw [trim, trim, List.dropWhile_append_of_pos h]

theorem exists_eq_trim (s : Str) :
    ∃ v w, (∀ c ∈ v, isWhitespace c = true) ∧ (∀ c ∈ w, isWhitespace c = true) ∧
      s = v ++ (trim s ++ w) := by
  refine ⟨s.takeWhile isWhitespace, (s.dropWhile isWhitespace).rtakeWhile isWhitespace,
    fun c hc => List.mem_takeWhile_imp hc, fun c hc => List.mem_rtakeWhile_imp hc, ?_⟩
  have htail : trim s ++ (s.dropWhile isWhitespace).rtakeWhile isWhitespace =
      s.dropWhile isWhitespace := List.rdropWhile_append_rtakeWhile
  rw [htail, List.takeWhile_append_dropWhile]

/-- Cutting a text short does not care about the white space around it. -/
theorem trim_takeWhile_trim {p : Char → Bool}
    (hp : ∀ c, isWhitespace c = true → p c = true) (s : Str) :
    trim ((trim s).takeWhile p) = trim (s.takeWhile p) := by
  obtain ⟨v, w, hv, hw, hs⟩ := exists_eq_trim s
  have hcut : s.takeWhile p = v ++ (trim s ++ w).takeWhile p := by
    conv_lhs => rw [hs]
    exact List.takeWhile_append_of_pos fun c hc => hp c (hv c hc)
  rw [hcut, trim_prepend_of_forall hv, List.takeWhile_append]
  split
  · next hall =>
    have hself : (trim s).takeWhile p = trim s :=
      (List.takeWhile_prefix p).eq_of_length hall
    rw [hself, trim_append_of_forall _ fun c hc => hw c ((List.takeWhile_prefix p).subset hc)]
  · rfl

theorem length_trim_le (s : Str) : (trim s).length ≤ s.length := by
  rw [trim]
  exact (List.rdropWhile_prefix _ _).length_le.trans (List.dropWhile_suffix _).length_le

theorem mem_of_mem_trim {s : Str} {c : Char} (h : c ∈ trim s) : c ∈ s :=
  (List.dropWhile_suffix isWhitespace).subset ((List.rdropWhile_prefix _ _).subset h)

theorem trim_trim (s : Str) : trim (trim s) = trim s := by
  have hhead : (trim s).dropWhile isWhitespace = trim s := by
    rw [List.dropWhile_eq_self_iff]
    intro hlen
    have hinit : trim s <+: s.dropWhile isWhitespace := List.rdropWhile_prefix _ _
    have hlen' := hlen.trans_le hinit.length_le
    rw [hinit.getElem hlen]
    exact List.dropWhile_get_zero_not _ _ hlen'
  show ((trim s).dropWhile isWhitespace).rdropWhile isWhitespace = trim s
  rw [hhead]
  exact List.rdropWhile_idempotent _ _

theorem toNat_toLower_of_upper {c : Char} (hlow : 65 ≤ c.toNat) (hhigh : c.toNat ≤ 90) :
    c.toLower.toNat = c.toNat + 32 := by
  have h : c.val ≥ 'A'.val ∧ c.val ≤ 'Z'.val :=
    ⟨UInt32.le_iff_toNat_le.mpr hlow, UInt32.le_iff_toNat_le.mpr hhigh⟩
  have hlower : c.toLower = ⟨c.val + 32, _⟩ := dif_pos h
  rw [hlower]
  show (c.val + 32).toNat = c.toNat + 32
  rw [UInt32.toNat_add]
  show (c.toNat + 32) % 2 ^ 32 = c.toNat + 32
  omega

/-- An upper-case letter moves up by 32, every other character stays. -/
theorem toLower_cases (c : Char) :
    c.toLower = c ∨ 65 ≤ c.toNat ∧ c.toNat ≤ 90 ∧ c.toLower.toNat = c.toNat + 32 := by
  by_cases h : c.val ≥ 'A'.val ∧ c.val ≤ 'Z'.val
  · right
    have hlow : 65 ≤ c.toNat := UInt32.le_iff_toNat_le.mp h.1
    have hhigh : c.toNat ≤ 90 := UInt32.le_iff_toNat_le.mp h.2
    exact ⟨hlow, hhigh, toNat_toLower_of_upper hlow hhigh⟩
  · exact .inl (dif_neg h)

theorem toLower_toLower (c : Char) : c.toLower.toLower = c.toLower := by
  rcases toLower_cases c with h | ⟨hlow, hhigh, hval⟩
  · rw [h, h]
  · rcases toLower_cases c.toLower with h | ⟨_, hhigh', _⟩
    · exact h
    · omega

theorem isWhitespace_toLower (c : Char) : isWhitespace c.toLower = isWhitespace c := by
  rcases toLower_cases c with h | ⟨hlow, hhigh, hval⟩
  · rw [h]
  · rw [isWhitespace, isWhitespace, hval, Bool.eq_iff_iff]
    simp only [Bool.or_eq_true, Bool.and_eq_true, decide_eq_true_eq, beq_iff_eq]
    omega

theorem trim_toAsciiLowercase (s : Str) :
    trim (toAsciiLowercase s) = toAsciiLowercase (trim s) := by
  have hcomp : isWhitespace ∘ Char.toLower = isWhitespace := funext isWhitespace_toLower
  rw [trim, trim, toAsciiLowercase, toAsciiLowercase, List.dropWhile_map, hcomp,
    List.rdropWhile, List.rdropWhile, ← List.map_reverse, List.dropWhile_map, hcomp,
    List.map_reverse]

theorem trimEndMatches_toAsciiLowercase (s : Str) :
    trimEndMatches '.' (toAsciiLowercase s) = toAsciiLowercase (trimEndMatches '.' s) := by
  have hdot : ∀ c : Char, (c.toLower == '.') = (c == '.') := by
    intro c
    rcases toLower_cases c with h | ⟨hlow, hhigh, hval⟩
    · rw [h]
    · have hne : c ≠ '.' := by
        rintro rfl
        exact absurd hlow (by decide)
      have hne' : c.toLower ≠ '.' := by
        intro h
        rw [h] at hval
        have hcode : '.'.toNat = 46 := rfl
        omega
      rw [beq_false_of_ne hne, beq_false_of_ne hne']
  have hcomp : (· == '.') ∘ Char.toLower = fun c => c == '.' := funext hdot
  rw [trimEndMatches, trimEndMatches, toAsciiLowercase, toAsciiLowercase, List.rdropWhile,
    List.rdropWhile, ← List.map_reverse, List.dropWhile_map, hcomp, List.map_reverse]

theorem isAlphanum_of_upper {c : Char} (hlow : 65 ≤ c.toNat) (hhigh : c.toNat ≤ 90) :
    c.isAlphanum = true := by
  have hupper : c.isUpper = true :=
    decide_eq_true ⟨UInt32.le_iff_toNat_le.mpr hlow, UInt32.le_iff_toNat_le.mpr hhigh⟩
  show (c.isUpper || c.isLower || c.isDigit) = true
  rw [hupper]
  rfl

theorem isWhitespace_of_isAlphanum {c : Char} (h : c.isAlphanum = true) :
    isWhitespace c = false := by
  have hrange : 48 ≤ c.toNat ∧ c.toNat ≤ 122 := by
    have hcases : ((decide ('A'.val ≤ c.val ∧ c.val ≤ 'Z'.val) ||
        (decide ('a'.val ≤ c.val) && decide (c.val ≤ 'z'.val))) ||
        (decide ('0'.val ≤ c.val) && decide (c.val ≤ '9'.val))) = true := h
    simp only [Bool.or_eq_true, Bool.and_eq_true, decide_eq_true_eq, UInt32.le_iff_toNat_le]
      at hcases
    have h0 : '0'.val.toNat = 48 := rfl
    have h9 : '9'.val.toNat = 57 := rfl
    have hA : 'A'.val.toNat = 65 := rfl
    have hZ : 'Z'.val.toNat = 90 := rfl
    have ha : 'a'.val.toNat = 97 := rfl
    have hz : 'z'.val.toNat = 122 := rfl
    have hval : c.toNat = c.val.toNat := rfl
    omega
  rw [isWhitespace, Bool.eq_false_iff]
  simp only [ne_eq, Bool.or_eq_true, Bool.and_eq_true, decide_eq_true_eq, beq_iff_eq]
  omega

/-! ### Lines -/

/-- Every line ends with a line feed. -/
def Terminated (s : Str) : Prop := s = [] ∨ ∃ t, s = t ++ ['\n']

theorem splitInclusive_append_cons (c : Char) (s t : Str) :
    splitInclusive c (s ++ c :: t) = splitInclusive c (s ++ [c]) ++ splitInclusive c t := by
  induction s with
  | nil => simp [splitInclusive]
  | cons x s ih =>
    simp only [List.cons_append, splitInclusive]
    split
    · rw [ih, List.cons_append]
    · rw [ih]
      cases hsplit : splitInclusive c (s ++ [c]) with
      | nil =>
        have hne : splitInclusive c (s ++ [c]) ≠ [] := by
          cases s with
          | nil => simp [splitInclusive]
          | cons y s =>
            rw [List.cons_append, splitInclusive]
            split
            · simp
            · split <;> simp
        exact absurd hsplit hne
      | cons l ls => rfl

theorem splitInclusive_append {s : Str} (h : Terminated s) (t : Str) :
    splitInclusive '\n' (s ++ t) = splitInclusive '\n' s ++ splitInclusive '\n' t := by
  rcases h with rfl | ⟨u, rfl⟩
  · rfl
  · rw [List.append_assoc, List.singleton_append, splitInclusive_append_cons]

theorem splitInclusive_line {c : Char} {l : Str} (h : c ∉ l) :
    splitInclusive c (l ++ [c]) = [l ++ [c]] := by
  induction l with
  | nil => simp [splitInclusive]
  | cons x l ih =>
    rw [List.mem_cons, not_or] at h
    rw [List.cons_append, splitInclusive, if_neg (fun hx => h.1 hx.symm), ih h.2]

theorem splitInclusive_of_not_mem {c : Char} {l : Str} (h : c ∉ l) (hne : l ≠ []) :
    splitInclusive c l = [l] := by
  induction l with
  | nil => exact absurd rfl hne
  | cons x l ih =>
    rw [List.mem_cons, not_or] at h
    rw [splitInclusive, if_neg fun hx => h.1 hx.symm]
    by_cases hnil : l = []
    · rw [hnil]
      rfl
    · rw [ih h.2 hnil]

/-- A piece is its content, with the terminator or, at the end of the text, without. -/
theorem piece_cases {c : Char} {s p : Str} (h : p ∈ splitInclusive c s) :
    ∃ l, c ∉ l ∧ (p = l ++ [c] ∨ p = l) := by
  induction s generalizing p with
  | nil => simp [splitInclusive] at h
  | cons x s ih =>
    rw [splitInclusive] at h
    split at h
    · next hx =>
      rcases List.mem_cons.mp h with rfl | htail
      · exact ⟨[], List.not_mem_nil, .inl (by rw [hx]; rfl)⟩
      · exact ih htail
    · next hx =>
      have hne : ¬ c = x := fun h => hx h.symm
      split at h
      · next hnil =>
        rw [List.mem_singleton.mp h]
        exact ⟨[x], by simpa using hne, .inr rfl⟩
      · next l ls hsplit =>
        rcases List.mem_cons.mp h with rfl | htail
        · obtain ⟨m, hm, hpiece⟩ := ih (p := l) (by rw [hsplit]; exact List.mem_cons_self)
          refine ⟨x :: m, by simp [hne, hm], ?_⟩
          rcases hpiece with rfl | rfl
          · exact .inl rfl
          · exact .inr rfl
        · exact ih (by rw [hsplit]; exact List.mem_cons_of_mem l htail)

theorem stripSuffixChar_concat (c : Char) (s : Str) : stripSuffixChar c (s ++ [c]) = some s := by
  simp [stripSuffixChar]

theorem stripSuffixChar_eq_some {c : Char} {s t : Str} (h : stripSuffixChar c s = some t) :
    s = t ++ [c] := by
  rw [stripSuffixChar] at h
  split at h
  · next hlast =>
    rw [← Option.some.inj h]
    exact (List.dropLast_append_getLast? c hlast).symm
  · cases h

/-- A line without its terminator, up to one carriage return at its end. -/
theorem lineOf_cases (p : Str) :
    lineOf p = p ∨ p = lineOf p ++ ['\n'] ∨ p = lineOf p ++ ['\r', '\n'] := by
  cases hp : stripSuffixChar '\n' p with
  | none =>
    left
    rw [lineOf, hp]
  | some l =>
    right
    have hl := stripSuffixChar_eq_some hp
    have hline : lineOf p = (stripSuffixChar '\r' l).getD l := by rw [lineOf, hp]
    cases hr : stripSuffixChar '\r' l with
    | none =>
      left
      rw [hline, hr]
      exact hl
    | some m =>
      right
      rw [hline, hr, hl, stripSuffixChar_eq_some hr, List.append_assoc]
      rfl

theorem isWhitespace_newline : ∀ c ∈ ['\n'], isWhitespace c = true :=
  List.forall_mem_singleton.mpr rfl

theorem trim_lineOf (p : Str) : trim (lineOf p) = trim p := by
  have hcrnl : ∀ c ∈ ['\r', '\n'], isWhitespace c = true :=
    List.forall_mem_cons.mpr ⟨rfl, isWhitespace_newline⟩
  rcases lineOf_cases p with h | h | h
  · rw [h]
  · rw [h, trim_append_of_forall _ isWhitespace_newline, ← h]
  · rw [h, trim_append_of_forall _ hcrnl, ← h]

theorem lineOf_initial (p : Str) : lineOf p <+: p := by
  rcases lineOf_cases p with h | h | h
  · exact ⟨[], by rw [h, List.append_nil]⟩
  · exact ⟨_, h.symm⟩
  · exact ⟨_, h.symm⟩

theorem not_mem_of_mem_lines {s l : Str} (h : l ∈ lines s) : '\n' ∉ l := by
  obtain ⟨p, hp, rfl⟩ := List.mem_map.mp h
  obtain ⟨m, hm, hpiece | hpiece⟩ := piece_cases hp
  · have hsub : lineOf p <+: m := by
      have hline : lineOf p = (stripSuffixChar '\r' m).getD m := by
        rw [lineOf, hpiece, stripSuffixChar_concat]
      rw [hline]
      cases hr : stripSuffixChar '\r' m with
      | none => exact List.prefix_rfl
      | some k => exact ⟨_, (stripSuffixChar_eq_some hr).symm⟩
    exact fun hin => hm (hsub.subset hin)
  · rw [hpiece]
    exact fun hin => hm ((lineOf_initial m).subset hin)

/-- `lines.join("\n") + "\n"` -/
def unlines (ls : List Str) : Str := join ['\n'] ls ++ ['\n']

theorem unlines_cons_cons (l m : Str) (ls : List Str) :
    unlines (l :: m :: ls) = l ++ ['\n'] ++ unlines (m :: ls) := by
  simp [unlines, join, List.intercalate, List.intersperse]

theorem terminated_unlines (ls : List Str) : Terminated (unlines ls) := .inr ⟨_, rfl⟩

theorem splitInclusive_unlines {ls : List Str} (h : ∀ l ∈ ls, '\n' ∉ l) (hne : ls ≠ []) :
    splitInclusive '\n' (unlines ls) = ls.map fun l => l ++ ['\n'] := by
  induction ls with
  | nil => exact absurd rfl hne
  | cons l ls ih =>
    have hl : '\n' ∉ l := h l List.mem_cons_self
    cases ls with
    | nil => simpa [unlines, join, List.intercalate] using splitInclusive_line hl
    | cons m ls =>
      rw [unlines_cons_cons, splitInclusive_append (.inr ⟨l, rfl⟩), splitInclusive_line hl,
        ih (fun k hk => h k (List.mem_cons_of_mem l hk)) (by simp)]
      rfl

/-! ### The listed lines -/

/-- The non-empty lines, without the white space around them. -/
def listed (s : Str) : Set Str := { t | t ≠ [] ∧ ∃ l ∈ lines s, trim l = t }

theorem mem_listed {s t : Str} :
    t ∈ listed s ↔ t ≠ [] ∧ ∃ p ∈ splitInclusive '\n' s, trim p = t := by
  simp only [listed, lines, Set.mem_ofPred_eq, List.mem_map, exists_exists_and_eq_and, trim_lineOf]

/-- What follows the last line feed. -/
def openLine (s : Str) : Str := s.rtakeWhile (· ≠ '\n')

theorem openLine_cases (s : Str) :
    ∃ t, Terminated t ∧ '\n' ∉ openLine s ∧ s = t ++ openLine s := by
  refine ⟨s.rdropWhile (· ≠ '\n'), ?_, fun hin => ?_, List.rdropWhile_append_rtakeWhile.symm⟩
  · by_cases hnil : s.rdropWhile (· ≠ '\n') = []
    · exact .inl hnil
    · have hlast := List.rdropWhile_last_not (· ≠ '\n') s hnil
      have hnl : (s.rdropWhile (· ≠ '\n')).getLast hnil = '\n' := by simpa using hlast
      have hsplit := List.dropLast_append_getLast hnil
      rw [hnl] at hsplit
      exact .inr ⟨_, hsplit.symm⟩
  · have hne := List.mem_rtakeWhile_imp hin
    simp at hne

theorem openLine_of_terminated {s : Str} (h : Terminated s) : openLine s = [] := by
  rcases h with rfl | ⟨t, rfl⟩
  · rfl
  · exact List.rtakeWhile_concat_neg _ _ _ (by simp)

/-- A line appended behind white space is a line of its own. -/
theorem listed_append_line {s l : Str} (hs : ∀ c ∈ openLine s, isWhitespace c = true)
    (hl : ∀ c ∈ l, isWhitespace c = false) (hne : l ≠ []) :
    listed (s ++ (l ++ ['\n'])) = insert l (listed s) := by
  obtain ⟨s₀, hs₀, hopen, hsplit⟩ := openLine_cases s
  generalize openLine s = w at hs hopen hsplit
  subst hsplit
  have hnl : '\n' ∉ w ++ l := fun h => by
    rcases List.mem_append.mp h with hw | hin
    · exact hopen hw
    · exact absurd (hl _ hin) (by decide)
  -- the blank rest of the last line is trimmed away
  have htrim : trim (w ++ l ++ ['\n']) = l := by
    rw [trim_append_of_forall _ isWhitespace_newline, trim_prepend_of_forall hs,
      trim_eq_self_of_forall hl]
  -- and no line was there before
  have hblank : ∀ p ∈ splitInclusive '\n' w, trim p = [] := by
    intro p hp
    by_cases hw : w = []
    · rw [hw] at hp
      exact absurd hp List.not_mem_nil
    · rw [splitInclusive_of_not_mem hopen hw] at hp
      rw [List.mem_singleton.mp hp]
      exact trim_append_of_forall [] hs
  ext t
  rw [Set.mem_insert_iff, mem_listed, mem_listed, List.append_assoc,
    splitInclusive_append hs₀, splitInclusive_append hs₀, ← List.append_assoc,
    splitInclusive_line hnl]
  simp only [List.mem_append, List.mem_singleton, or_and_right, exists_or, exists_eq_left, htrim]
  constructor
  · rintro ⟨ht, hold | rfl⟩
    · exact .inr ⟨ht, .inl hold⟩
    · exact .inl rfl
  · rintro (rfl | ⟨ht, hold | ⟨p, hp, hpt⟩⟩)
    · exact ⟨hne, .inr rfl⟩
    · exact ⟨ht, .inl hold⟩
    · exact absurd ((hblank p hp).symm.trans hpt) fun h => ht h.symm

theorem listed_unlines_filter (s d : Str) :
    listed (unlines ((lines s).filter fun l => trim l ≠ d)) = listed s \ {d} := by
  have hlines : ∀ l ∈ (lines s).filter fun l => decide (trim l ≠ d), '\n' ∉ l := fun l hl =>
    not_mem_of_mem_lines (List.mem_filter.mp hl).1
  have hmem : ∀ t, t ∈ listed s \ {d} ↔
      t ≠ [] ∧ ∃ l ∈ (lines s).filter fun l => decide (trim l ≠ d), trim l = t := by
    intro t
    simp only [listed, Set.mem_sdiff, Set.mem_ofPred_eq, Set.mem_singleton_iff, List.mem_filter,
      decide_eq_true_eq]
    constructor
    · rintro ⟨⟨ht, l, hl, rfl⟩, hd⟩
      exact ⟨ht, l, ⟨hl, hd⟩, rfl⟩
    · rintro ⟨ht, l, ⟨hl, hd⟩, rfl⟩
      exact ⟨⟨ht, l, hl, rfl⟩, hd⟩
  ext t
  rw [hmem, mem_listed]
  by_cases hnil : ((lines s).filter fun l => decide (trim l ≠ d)) = []
  · rw [hnil]
    have hblank : trim ['\n'] = [] := by decide
    simp [unlines, join, splitInclusive, hblank, eq_comm]
  · rw [splitInclusive_unlines hlines hnil]
    have htrim : ∀ l : Str, trim (l ++ ['\n']) = trim l := fun l =>
      trim_append_of_forall l isWhitespace_newline
    simp only [List.mem_map, exists_exists_and_eq_and, htrim]

end RustStd.Str
