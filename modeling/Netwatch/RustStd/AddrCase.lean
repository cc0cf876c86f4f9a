import Netwatch.RustStd.IpAddr
import Netwatch.RustStd.Lines

/-!
# Addresses in upper and lower case

The parser of `core::net` takes hexadecimal digits in either case and knows no other letter, so
`str::to_ascii_lowercase` does not change what it reads.

## Main definitions

- `CaseBlind` — a reader that gives the same value on the text in lower case

## Main results

- `parse_toAsciiLowercase` — the parser does not look at case
-/

namespace RustStd.IpAddr

open Str

theorem isDigit_iff {c : Char} : c.isDigit = true ↔ 48 ≤ c.toNat ∧ c.toNat ≤ 57 := by
  rw [Char.isDigit, Bool.and_eq_true, decide_eq_true_eq, decide_eq_true_eq]
  exact and_congr UInt32.le_iff_toNat_le UInt32.le_iff_toNat_le

theorem toDigit_toLower (radix : ℕ) (c : Char) : toDigit radix c.toLower = toDigit radix c := by
  rcases toLower_cases c with h | ⟨hlow, hhigh, hval⟩
  · rw [h]
  · have hdigit : c.isDigit = false := by
      rw [← Bool.not_eq_true, isDigit_iff]
      omega
    have hdigit' : c.toLower.isDigit = false := by
      rw [← Bool.not_eq_true, isDigit_iff]
      omega
    have hvalue : (if 97 ≤ c.toLower.toNat ∧ c.toLower.toNat ≤ 102 then c.toLower.toNat - 87
        else if 65 ≤ c.toLower.toNat ∧ c.toLower.toNat ≤ 70 then c.toLower.toNat - 55 else 16) =
        if 97 ≤ c.toNat ∧ c.toNat ≤ 102 then c.toNat - 87
        else if 65 ≤ c.toNat ∧ c.toNat ≤ 70 then c.toNat - 55 else 16 := by
      split <;> split <;> (try split) <;> (try split) <;> omega
    simp only [toDigit, hdigit, hdigit', Bool.false_eq_true, if_false, hvalue]

theorem toLower_eq_iff {c : Char} (hc : c.toNat < 65) (d : Char) : d.toLower = c ↔ d = c := by
  rcases toLower_cases d with h | ⟨hlow, _, hval⟩
  · rw [h]
  · constructor
    · rintro rfl
      omega
    · rintro rfl
      omega

variable {α : Type}

/-- The value is the same on the text in lower case, and what is left is the same text. -/
def CaseBlind (read : Str → Option (α × Str)) : Prop :=
  ∀ s, read (toAsciiLowercase s) = (read s).map (Prod.map id toAsciiLowercase)

theorem caseBlind_readNumber (radix maxDigits limit : ℕ) (allowZeroPrefix : Bool) :
    CaseBlind (readNumber radix maxDigits limit allowZeroPrefix) := by
  intro s
  have hdigit : toDigit radix ∘ Char.toLower = toDigit radix := funext (toDigit_toLower radix)
  have htake : (toAsciiLowercase s).takeWhile (fun c => (toDigit radix c).isSome) =
      toAsciiLowercase (s.takeWhile fun c => (toDigit radix c).isSome) := by
    have hsome : (fun c => (toDigit radix c).isSome) ∘ Char.toLower =
        fun c => (toDigit radix c).isSome := funext fun c => by
      rw [Function.comp_apply, toDigit_toLower]
    rw [toAsciiLowercase, List.takeWhile_map, hsome]
    rfl
  have hhead : (toAsciiLowercase s).head? = some '0' ↔ s.head? = some '0' := by
    cases s with
    | nil => exact Iff.rfl
    | cons c s => simp [toAsciiLowercase, toLower_eq_iff]
  have hvalue : ∀ ds : Str, (toAsciiLowercase ds).filterMap (toDigit radix) =
      ds.filterMap (toDigit radix) := by
    intro ds
    rw [toAsciiLowercase, List.filterMap_map, hdigit]
  have hlen : ∀ ds : Str, (toAsciiLowercase ds).length = ds.length := fun ds => List.length_map _
  have hdrop : ∀ n, (toAsciiLowercase s).drop n = toAsciiLowercase (s.drop n) := by
    intro n
    rw [toAsciiLowercase, ← List.map_drop]
    rfl
  simp only [readNumber, htake, hvalue, hlen, hhead, hdrop]
  split
  · rfl
  · split
    · rfl
    · split <;> rfl

theorem readGivenChar_toAsciiLowercase {c : Char} (hc : c.toNat < 65) (s : Str) :
    readGivenChar c (toAsciiLowercase s) = (readGivenChar c s).map toAsciiLowercase := by
  cases s with
  | nil => rfl
  | cons d s =>
    have hiff := toLower_eq_iff hc d
    by_cases hd : d = c
    · have hlow : toAsciiLowercase (d :: s) = [c] ++ toAsciiLowercase s := by
        rw [toAsciiLowercase, List.map_cons, hiff.mpr hd]
        rfl
      have hself : d :: s = [c] ++ s := by rw [hd]; rfl
      rw [readGivenChar, readGivenChar, hlow, hself, stripPrefix_append, stripPrefix_append]
      rfl
    · have hne : ∀ {e : Char} (t : Str), e ≠ c → readGivenChar c (e :: t) = none := by
        intro e t he
        cases h : readGivenChar c (e :: t) with
        | none => rfl
        | some u => exact absurd (List.cons.inj (stripPrefix_eq_some h)).1 he
      rw [hne s hd]
      exact hne (toAsciiLowercase s) fun h => hd (hiff.mp h)

theorem caseBlind_readSeparator (sep : Char) (hsep : sep.toNat < 65) (index : ℕ)
    {inner : Str → Option (α × Str)} (h : CaseBlind inner) :
    CaseBlind (readSeparator sep index inner) := by
  intro s
  rw [readSeparator, readSeparator]
  split
  · rw [readGivenChar_toAsciiLowercase hsep, Option.bind_map, Option.map_bind]
    congr 1
    funext t
    exact h t
  · exact h s

theorem CaseBlind.bind {β : Type} {read : Str → Option (α × Str)} (h : CaseBlind read)
    {next : α → Str → Option (β × Str)} (hnext : ∀ a, CaseBlind (next a)) :
    CaseBlind fun s => (read s).bind fun r => next r.1 r.2 := by
  intro s
  show (read (toAsciiLowercase s)).bind _ = ((read s).bind _).map _
  rw [h s, Option.bind_map, Option.map_bind]
  congr 1
  funext r
  exact hnext r.1 r.2

theorem caseBlind_readIpv4Addr : CaseBlind readIpv4Addr := by
  have hoctet : ∀ i, CaseBlind (readSeparator '.' i (readNumber 10 3 255 false)) := fun i =>
    caseBlind_readSeparator '.' (by decide) i (caseBlind_readNumber 10 3 255 false)
  have hend : ∀ a b c d : ℕ, CaseBlind fun s => some (Ipv4Addr.ofOctets a b c d, s) :=
    fun _ _ _ _ _ => rfl
  exact (hoctet 0).bind fun a => (hoctet 1).bind fun b => (hoctet 2).bind fun c =>
    (hoctet 3).bind fun d => hend a b c d

theorem readGroups_toAsciiLowercase (i left : ℕ) (s : Str) :
    readGroups i left (toAsciiLowercase s) =
      ((readGroups i left s).1, toAsciiLowercase (readGroups i left s).2) := by
  induction left generalizing i s with
  | zero => rfl
  | succ left ih =>
    have hembedded : (if left > 0 then readSeparator ':' i readIpv4Addr (toAsciiLowercase s)
          else none) =
        (if left > 0 then readSeparator ':' i readIpv4Addr s else none).map
          (Prod.map id toAsciiLowercase) := by
      split
      · exact caseBlind_readSeparator ':' (by decide) i caseBlind_readIpv4Addr s
      · rfl
    have hgroup := caseBlind_readSeparator ':' (by decide) i
      (caseBlind_readNumber 16 4 65535 true) s
    simp only [readGroups, hembedded]
    cases if left > 0 then readSeparator ':' i readIpv4Addr s else none with
    | some r => rfl
    | none =>
      simp only [Option.map_none, hgroup]
      cases readSeparator ':' i (readNumber 16 4 65535 true) s with
      | none => rfl
      | some r => simp only [Option.map_some, Prod.map, id_eq, ih]

theorem caseBlind_readIpv6Addr : CaseBlind readIpv6Addr := by
  intro s
  simp only [readIpv6Addr, readGroups_toAsciiLowercase]
  obtain ⟨⟨head, headIpv4⟩, rest⟩ := readGroups 0 8 s
  simp only
  split
  · rfl
  · split
    · rfl
    · have hcolon := readGivenChar_toAsciiLowercase (c := ':') (by decide)
      simp only [hcolon, Option.bind_eq_bind]
      cases readGivenChar ':' rest with
      | none => rfl
      | some t =>
        simp only [Option.map_some, Option.bind_some, hcolon]
        cases readGivenChar ':' t with
        | none => rfl
        | some u =>
          simp only [Option.map_some, Option.bind_some, readGroups_toAsciiLowercase]
          rfl

theorem parse_toAsciiLowercase (s : Str) : parse (toAsciiLowercase s) = parse s := by
  simp only [parse, caseBlind_readIpv4Addr s, caseBlind_readIpv6Addr s]
  cases readIpv4Addr s with
  | some r =>
    obtain ⟨a, rest⟩ := r
    cases rest <;> rfl
  | none =>
    cases readIpv6Addr s with
    | none => rfl
    | some r =>
      obtain ⟨a, rest⟩ := r
      cases rest <;> rfl

end RustStd.IpAddr
