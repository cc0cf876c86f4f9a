import Mathlib.Algebra.GroupWithZero.Nat
import Mathlib.Data.List.DropRight
import Mathlib.Data.List.TakeDrop

/-!
# String slices

A `&str` is the list of its characters. The functions below are those of `core::str` under
the same names, with the documented behaviour; only `len` counts bytes.

## Main definitions

- `lines` — `str::lines`: pieces end at `'\n'`, which is dropped with one `'\r'` before it
- `trim` — `str::trim`: Unicode white space removed at both ends
- `suffixesAfter` — what follows each occurrence of a separator, longest first
-/

namespace RustStd

abbrev Str := List Char

instance : LawfulBEq Str := inferInstance

namespace Str

/-- `str::len`: the number of UTF-8 bytes. -/
def len (s : Str) : ℕ := (s.map Char.utf8Size).sum

/-- `str::as_bytes` -/
def utf8 (s : Str) : List UInt8 := s.flatMap String.utf8EncodeChar

/-- `str::from_utf8` -/
def fromUtf8 (bytes : List UInt8) : Option Str :=
  bytes.toByteArray.utf8Decode?.map Array.toList

/-- `char::is_whitespace`: the Unicode property `White_Space`. -/
def isWhitespace (c : Char) : Bool :=
  let n := c.toNat
  (9 ≤ n && n ≤ 13) || n == 0x20 || n == 0x85 || n == 0xA0 || n == 0x1680 ||
    (0x2000 ≤ n && n ≤ 0x200A) || n == 0x2028 || n == 0x2029 || n == 0x202F ||
    n == 0x205F || n == 0x3000

def trim (s : Str) : Str := (s.dropWhile isWhitespace).rdropWhile isWhitespace

def trimEndMatches (c : Char) (s : Str) : Str := s.rdropWhile (· == c)

def toAsciiLowercase (s : Str) : Str := s.map Char.toLower

def eqIgnoreAsciiCase (s t : Str) : Bool := toAsciiLowercase s == toAsciiLowercase t

def stripPrefix (pre s : Str) : Option Str := s.dropPrefix? pre

def stripSuffix (suf s : Str) : Option Str := s.dropSuffix? suf

def stripSuffixChar (c : Char) (s : Str) : Option Str :=
  if s.getLast? = some c then some s.dropLast else none

/-- `str::split_inclusive` for a single character: each piece keeps its terminator, and
only the last piece may lack one. -/
def splitInclusive (c : Char) : Str → List Str
  | [] => []
  | x :: xs =>
    if x = c then [x] :: splitInclusive c xs
    else match splitInclusive c xs with
      | [] => [[x]]
      | l :: ls => (x :: l) :: ls

def lineOf (piece : Str) : Str :=
  match stripSuffixChar '\n' piece with
  | none => piece
  | some l => (stripSuffixChar '\r' l).getD l

def lines (s : Str) : List Str := (splitInclusive '\n' s).map lineOf

def splitWhitespace (s : Str) : List Str :=
  (s.splitOnP isWhitespace).filter (· ≠ [])

def join (sep : Str) (parts : List Str) : Str := sep.intercalate parts

def splitOnce (c : Char) (s : Str) : Option (Str × Str) :=
  match s.span (· ≠ c) with
  | (_, []) => none
  | (before, _ :: after) => some (before, after)

/-- `str::parse::<u8>`: an optional plus sign, then decimal digits with value at most 255. -/
def parseU8 (s : Str) : Option ℕ :=
  let digits := (stripPrefix ['+'] s).getD s
  let value := digits.foldl (fun n c => n * 10 + (c.toNat - 48)) 0
  if digits ≠ [] ∧ digits.all Char.isDigit ∧ value ≤ 255 then some value else none

/-- What follows each occurrence of `sep` in `s`, from the first occurrence on. -/
def suffixesAfter (sep : Char) : Str → List Str
  | [] => []
  | c :: rest => if c = sep then rest :: suffixesAfter sep rest else suffixesAfter sep rest

theorem mem_suffixesAfter {sep : Char} {s t : Str} :
    t ∈ suffixesAfter sep s ↔ ∃ p, s = p ++ sep :: t := by
  induction s with
  | nil => simp [suffixesAfter]
  | cons c rest ih =>
    have hcons : (∃ p, c :: rest = p ++ sep :: t) ↔
        (c = sep ∧ rest = t) ∨ ∃ p, rest = p ++ sep :: t := by
      constructor
      · rintro ⟨p, hp⟩
        cases p with
        | nil => exact .inl (by simpa using hp)
        | cons d p => exact .inr ⟨p, (List.cons.inj hp).2⟩
      · rintro (⟨rfl, rfl⟩ | ⟨p, rfl⟩)
        · exact ⟨[], rfl⟩
        · exact ⟨c :: p, rfl⟩
    rw [hcons, ← ih, suffixesAfter]
    split
    · next h => simp [h, eq_comm]
    · next h => simp [h]

theorem length_lt_of_mem_suffixesAfter {sep : Char} {s t : Str}
    (h : t ∈ suffixesAfter sep s) : t.length < s.length := by
  obtain ⟨p, rfl⟩ := mem_suffixesAfter.mp h
  simp only [List.length_append, List.length_cons]
  omega

theorem pairwise_suffixesAfter (sep : Char) (s : Str) :
    (suffixesAfter sep s).Pairwise fun t u => u.length < t.length := by
  induction s with
  | nil => exact List.Pairwise.nil
  | cons c rest ih =>
    rw [suffixesAfter]
    split
    · exact List.Pairwise.cons (fun u hu => length_lt_of_mem_suffixesAfter hu) ih
    · exact ih

theorem splitOnce_cons (c d : Char) (s : Str) :
    splitOnce c (d :: s) =
      if d = c then some ([], s) else (splitOnce c s).map fun (x, y) => (d :: x, y) := by
  rw [splitOnce, splitOnce, List.span_eq_takeWhile_dropWhile, List.span_eq_takeWhile_dropWhile]
  by_cases h : d = c
  · simp [h]
  · simp only [List.takeWhile_cons, List.dropWhile_cons, h, ne_eq, not_false_eq_true, decide_true,
      if_true, if_false]
    cases List.dropWhile (fun x => decide ¬x = c) s <;> rfl

theorem splitOnce_eq_some_iff {c : Char} {s x y : Str} :
    splitOnce c s = some (x, y) ↔ s = x ++ c :: y ∧ c ∉ x := by
  induction s generalizing x with
  | nil =>
    refine iff_of_false (fun h => ?_) fun h => ?_
    · cases h
    · simp at h
  | cons d s ih =>
    rw [splitOnce_cons]
    split
    · next h =>
      subst h
      cases x with
      | nil => simp
      | cons e x => simp +contextual [eq_comm]
    · next h =>
      rw [Option.map_eq_some_iff]
      constructor
      · rintro ⟨⟨x', y'⟩, hsplit, heq⟩
        obtain ⟨rfl, rfl⟩ := Prod.mk.inj heq
        obtain ⟨rfl, hnot⟩ := ih.mp hsplit
        exact ⟨rfl, List.not_mem_cons_of_ne_of_not_mem (fun heq => h heq.symm) hnot⟩
      · rintro ⟨heq, hnot⟩
        cases x with
        | nil => exact absurd (List.cons.inj heq).1 h
        | cons e x =>
          obtain ⟨rfl, htail⟩ := List.cons.inj heq
          exact ⟨(x, y), ih.mpr ⟨htail, fun hx => hnot (List.mem_cons_of_mem d hx)⟩, rfl⟩

theorem stripPrefix_append (pre s : Str) : stripPrefix pre (pre ++ s) = some s :=
  List.dropPrefix?_append_of_beq s (beq_self_eq_true pre)

theorem stripPrefix_eq_some {pre s t : Str} (h : stripPrefix pre s = some t) : s = pre ++ t := by
  obtain ⟨p, rfl, hp⟩ := List.dropPrefix?_eq_some_iff.mp h
  rw [eq_of_beq hp]

theorem stripPrefix_eq_none {pre s : Str} {c : Char} (hpre : c ∈ pre) (hs : c ∉ s) :
    stripPrefix pre s = none := by
  cases h : stripPrefix pre s with
  | none => rfl
  | some t =>
    rw [stripPrefix_eq_some h] at hs
    exact absurd (List.mem_append_left t hpre) hs

theorem mem_trimEndMatches {s : Str} {c : Char} (x : Char) (h : c ∈ s) :
    c = x ∨ c ∈ trimEndMatches x s := by
  have hs : s = trimEndMatches x s ++ s.rtakeWhile (· == x) :=
    List.rdropWhile_append_rtakeWhile.symm
  rw [hs, List.mem_append] at h
  rcases h with h | h
  · exact .inr h
  · have hx : (c == x) = true := @List.mem_rtakeWhile_imp _ (· == x) _ _ h
    exact .inl (eq_of_beq hx)

theorem mem_join {c : Char} {sep : Str} {parts : List Str} (h : c ∈ join sep parts) :
    c ∈ sep ∨ ∃ part ∈ parts, c ∈ part := by
  obtain ⟨piece, hpiece, hc⟩ := List.mem_flatten.mp h
  have hcases : ∀ {ps : List Str}, piece ∈ ps.intersperse sep → piece = sep ∨ piece ∈ ps := by
    intro ps hin
    fun_induction List.intersperse sep ps with
    | case1 => exact .inr hin
    | case2 x => exact .inr hin
    | case3 x y ps ih =>
      simp only [List.mem_cons] at hin ih ⊢
      tauto
  rcases hcases hpiece with rfl | hmem
  · exact .inl hc
  · exact .inr ⟨piece, hmem, hc⟩

theorem mem_of_mem_splitOn {sep c : Char} {s l : Str} (hl : l ∈ s.splitOn sep) (hc : c ∈ l) :
    c ∈ s := by
  induction s generalizing l with
  | nil =>
    rw [List.splitOn_nil, List.mem_singleton] at hl
    rwa [hl] at hc
  | cons x s ih =>
    rw [List.splitOn_cons_eq_if_modifyHead] at hl
    split at hl
    · rcases List.mem_cons.mp hl with rfl | htail
      · cases hc
      · exact List.mem_cons_of_mem x (ih htail hc)
    · obtain ⟨w, ws, hsplit⟩ := List.exists_cons_of_ne_nil (List.splitOn_ne_nil sep s)
      rw [hsplit] at hl ih
      rcases List.mem_cons.mp hl with rfl | htail
      · rcases List.mem_cons.mp hc with rfl | hw
        · exact List.mem_cons_self
        · exact List.mem_cons_of_mem x (ih List.mem_cons_self hw)
      · exact List.mem_cons_of_mem x (ih (List.mem_cons_of_mem w htail) hc)

theorem utf8_injective {s t : Str} (h : utf8 s = utf8 t) : s = t := by
  have hbytes : (String.ofList s).toByteArray = (String.ofList t).toByteArray := by
    show s.utf8Encode = t.utf8Encode
    rw [List.utf8Encode, List.utf8Encode]
    exact congrArg List.toByteArray h
  have hof := String.toByteArray_inj.mp hbytes
  simpa using congrArg String.toList hof

theorem fromUtf8_eq_some_iff {bytes : List UInt8} {s : Str} :
    fromUtf8 bytes = some s ↔ utf8 s = bytes := by
  have hencode : (utf8 s).toByteArray = s.utf8Encode := rfl
  rw [fromUtf8, Option.map_eq_some_iff]
  constructor
  · rintro ⟨chars, hdecode, rfl⟩
    have hsome : bytes.toByteArray.utf8Decode?.isSome = true := by rw [hdecode]; rfl
    have hget := ByteArray.utf8Encode_get_utf8Decode? (h := hsome)
    simp only [hdecode, Option.get_some] at hget
    rw [← hencode] at hget
    exact List.toByteArray_inj.mp hget
  · rintro rfl
    exact ⟨s.toArray, by rw [hencode, List.utf8Decode?_utf8Encode], rfl⟩

theorem utf8_map_ofUInt8 {v : List UInt8} (h : ∀ b ∈ v, b.toNat < 128) :
    utf8 (v.map Char.ofUInt8) = v := by
  induction v with
  | nil => rfl
  | cons b v ih =>
    have hval : (Char.ofUInt8 b).val = b.toUInt32 := rfl
    have hsize : (Char.ofUInt8 b).utf8Size = 1 := by
      rw [Char.utf8Size_eq_one_iff, hval, UInt32.le_iff_toNat_le, UInt8.toNat_toUInt32]
      have hb := h b (by simp)
      show b.toNat ≤ 127
      omega
    have htail := ih fun d hd => h d (by simp [hd])
    rw [utf8] at htail
    rw [utf8, List.map_cons, List.flatMap_cons, htail,
      String.utf8EncodeChar_eq_singleton hsize, hval]
    simp

end Str

end RustStd
