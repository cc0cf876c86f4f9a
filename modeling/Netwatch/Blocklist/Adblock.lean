import Netwatch.Blocklist.Rules

/-!
# Adblock Plus rules

What a line in Adblock Plus syntax asks of a DNS blocker, and what `ingest` makes of it. The
comment is cut off first, then `parse_adblock` looks at the line, and what it declines is read
as a hosts line or a bare domain.

## Main definitions

- `IsAbp` — the line is a `||` or `@@||` rule, or an element-hiding rule
- `abpRule` — the rule such a line stands for, if it can be honoured exactly
- `Honoured` — ingesting the line adds that rule and nothing else
- `Exact` — when it does
-/

namespace Netwatch.Blocklist

open RustStd

/-- A line without its comment and the white space around it. -/
def uncommented (raw : Str) : Str := Str.trim (raw.takeWhile fun c => c ≠ '#' ∧ c ≠ '!')

/-- What follows `@@||` (`true`) or `||` (`false`). -/
def anchored (line : Str) : Option (Bool × Str) :=
  match Str.stripPrefix "@@||".toList line with
  | some body => some (true, body)
  | none => (Str.stripPrefix "||".toList line).map fun body => (false, body)

def ruleDomain (body : Str) : Str := body.takeWhile fun c => c ≠ '^' ∧ c ≠ '$' ∧ c ≠ '/'

def ruleTail (body : Str) : Str := body.dropWhile fun c => c ≠ '^' ∧ c ≠ '$' ∧ c ≠ '/'

/-! ### What the syntax says -/

/-- `domains##…`, `domains#@#…`, `domains#?#…` -/
def ElementHiding (line : Str) : Prop :=
  ∃ domains sep rest, line = domains ++ sep ++ rest ∧
    sep ∈ ["##".toList, "#@#".toList, "#?#".toList] ∧
    ∀ c ∈ domains, c ≠ '#' ∧ c ≠ '!' ∧ Str.isWhitespace c = false

def IsAbp (raw : Str) : Prop :=
  "||".toList <+: Str.trim raw ∨ "@@||".toList <+: Str.trim raw ∨ ElementHiding (Str.trim raw)

/-- `d` and `d^` stand for the domain `d` and everything below it, nothing else stands for a
rule. -/
def bodyRule (exception : Bool) (body : Str) : Option ListRule :=
  let d := (Str.stripSuffixChar '^' body).getD body
  if '*' ∈ d then none else (normalize d).map fun e => ⟨exception, .wildcard e.domain⟩

def abpRule (raw : Str) : Option ListRule :=
  match anchored (uncommented raw) with
  | some (exception, body) => bodyRule exception body
  | none => none

/-- On a block list the line adds the rule it stands for, and changes nothing else. -/
def Honoured (raw : Str) : Prop :=
  ∀ (bl : Blocklist) (id : SourceId),
    bl.ingestLine id false raw = match abpRule raw with
      | some r => addRule id bl r
      | none => bl

def StartsBlank (s : Str) : Prop := ∃ c ∈ s.head?, Str.isWhitespace c = true

/-- A modifier, a path or a wildcard is recognised wherever it stands, other text after the
separator is not. -/
def ExactBody (body : Str) : Prop :=
  '$' ∈ ruleTail body ∨ '/' ∈ ruleTail body ∨ '*' ∈ ruleDomain body ∨
    normalize (ruleDomain body) = none ∨
    ((ruleTail body = [] ∨ ruleTail body = ['^']) ↔ ¬ StartsBlank (ruleDomain body))

def Exact (raw : Str) : Prop :=
  match anchored (uncommented raw) with
  | some (_, body) => ExactBody body
  | none => uncommented raw ∈ hostsMarkers ∨ normalize (uncommented raw) = none

/-! ### What the code does -/

def codedRule (exception : Bool) (body : Str) : Option ListRule :=
  if '$' ∈ ruleTail body ∨ '/' ∈ ruleTail body ∨ ruleDomain body = [] ∨ '*' ∈ ruleDomain body then
    none
  else (normalize (wildcardText (ruleDomain body))).map (ListRule.mk exception)

theorem eq_of_anchored {line body : Str} {exception : Bool}
    (h : anchored line = some (exception, body)) :
    line = (if exception then "@@||".toList else "||".toList) ++ body := by
  rw [anchored] at h
  split at h
  · next b hb =>
    obtain ⟨rfl, rfl⟩ := Prod.mk.inj (Option.some.inj h)
    exact Str.stripPrefix_eq_some hb
  · obtain ⟨b, hb, heq⟩ := Option.map_eq_some_iff.mp h
    obtain ⟨rfl, rfl⟩ := Prod.mk.inj heq
    exact Str.stripPrefix_eq_some hb

theorem parseAdblock_of_anchored {line body : Str} {exception : Bool}
    (h : anchored line = some (exception, body)) :
    parseAdblock line =
      if '$' ∈ ruleTail body ∨ '/' ∈ ruleTail body ∨ ruleDomain body = [] ∨
          '*' ∈ ruleDomain body then none
      else some (if exception then .exception (ruleDomain body) else .block (ruleDomain body)) := by
  have hline := eq_of_anchored h
  have hbracket : line.head? ≠ some '[' := by
    rw [hline]
    cases exception <;> simp
  have hat : Str.stripPrefix "@@".toList line =
      if exception then some ("||".toList ++ body) else none := by
    cases exception with
    | true =>
      have hsplit : line = "@@".toList ++ ("||".toList ++ body) := hline
      rw [hsplit, Str.stripPrefix_append, if_pos rfl]
    | false =>
      have hsplit : line = "||".toList ++ body := hline
      rw [hsplit]
      rfl
  rw [parseAdblock, if_neg hbracket, hat]
  cases exception with
  | true =>
    simp only [if_true, Str.stripPrefix_append, List.span_eq_takeWhile_dropWhile,
      Bool.or_eq_true, List.contains_iff_mem, or_assoc]
    rfl
  | false =>
    have hsplit : line = "||".toList ++ body := hline
    simp only [Bool.false_eq_true, if_false, hsplit, Str.stripPrefix_append,
      List.span_eq_takeWhile_dropWhile, Bool.or_eq_true, List.contains_iff_mem, or_assoc]
    rfl

theorem parseAdblock_of_not_anchored {line : Str} (h : anchored line = none) :
    parseAdblock line = none := by
  have hat : Str.stripPrefix "@@||".toList line = none := by
    cases hat : Str.stripPrefix "@@||".toList line with
    | none => rfl
    | some body =>
      rw [anchored, hat] at h
      cases h
  have hbar : Str.stripPrefix "||".toList line = none := by
    rw [anchored, hat] at h
    exact Option.map_eq_none_iff.mp h
  rw [parseAdblock]
  split
  · rfl
  · cases hr : Str.stripPrefix "@@".toList line with
    | none => simp only [hbar]
    | some r =>
      cases hbar' : Str.stripPrefix "||".toList r with
      | none => simp only [hbar']
      | some body =>
        have hline : line = "@@||".toList ++ body := by
          rw [Str.stripPrefix_eq_some hr, Str.stripPrefix_eq_some hbar']
          rfl
        rw [hline, Str.stripPrefix_append] at hat
        cases hat

/-! A rule that `parse_adblock` declines contributes nothing as a hosts line or bare domain. -/

theorem splitWhitespace_cons {c : Char} (hc : Str.isWhitespace c = false) (s : Str) :
    ∃ w ws, Str.splitWhitespace (c :: s) = (c :: w) :: ws := by
  obtain ⟨w, ws, hsplit⟩ := List.exists_cons_of_ne_nil (List.splitOnP_ne_nil Str.isWhitespace s)
  refine ⟨w, ws.filter (· ≠ []), ?_⟩
  rw [Str.splitWhitespace, List.splitOnP_cons_eq_if_modifyHead, hc, hsplit]
  simp

theorem normalize_eq_none_of_mem {s : Str} {c : Char} (hc : c ∈ s)
    (hbad : ¬ (Str.isWhitespace c = true ∨ c = '*' ∨ c = '.' ∨ c.isAlphanum = true ∨ c = '-' ∨
      c = '_')) : normalize s = none := by
  cases h : normalize s with
  | none => rfl
  | some e => exact absurd (chars_of_normalize h c hc) hbad

theorem lineRules_of_declined {raw : Str} (hparse : parseAdblock (uncommented raw) = none)
    {c : Char} {rest : Str} (hline : uncommented raw = c :: rest) (hc : c = '|' ∨ c = '@') :
    lineRules false raw = [] := by
  have hspace : Str.isWhitespace c = false := by rcases hc with rfl | rfl <;> decide
  obtain ⟨w, ws, hwords⟩ := splitWhitespace_cons hspace rest
  have hmarker : c :: w ∉ hostsMarkers := by
    have hfree : ∀ m ∈ hostsMarkers, '|' ∉ m ∧ '@' ∉ m := by decide
    intro hin
    rcases hc with rfl | rfl
    · exact (hfree _ hin).1 List.mem_cons_self
    · exact (hfree _ hin).2 List.mem_cons_self
  have hnone : normalize (c :: w) = none := by
    apply normalize_eq_none_of_mem List.mem_cons_self
    rcases hc with rfl | rfl <;> decide
  have hne : uncommented raw ≠ [] := hline ▸ List.cons_ne_nil c rest
  rw [lineRules, lineEntries, ← uncommented, if_neg hne, hparse, hline, hwords]
  simp only [if_neg hmarker]
  split
  · simp [entryRule, hnone]
  · rfl

theorem lineRules_of_anchored {raw body : Str} {exception : Bool}
    (h : anchored (uncommented raw) = some (exception, body)) :
    lineRules false raw = (codedRule exception body).toList := by
  have hline := eq_of_anchored h
  have hparse := parseAdblock_of_anchored h
  rw [codedRule]
  split at hparse
  · next hbad =>
    rw [if_pos hbad]
    cases exception with
    | true => exact lineRules_of_declined hparse hline (.inr rfl)
    | false => exact lineRules_of_declined hparse hline (.inl rfl)
  · next hok =>
    have hne : uncommented raw ≠ [] := by
      rw [hline]
      cases exception <;> simp
    rw [if_neg hok, lineRules, lineEntries, ← uncommented, if_neg hne, hparse]
    cases exception
    all_goals
      simp only [Bool.false_eq_true, if_true, if_false, List.filterMap_cons, List.filterMap_nil,
        entryRule]
      cases normalize (wildcardText (ruleDomain body)) <;> rfl

theorem lineRules_of_word {raw : Str} (h : anchored (uncommented raw) = none)
    (hword : ∀ c ∈ uncommented raw, Str.isWhitespace c = false) :
    lineRules false raw =
      (if uncommented raw ∈ hostsMarkers then none
        else (normalize (uncommented raw)).map (ListRule.mk false)).toList := by
  rw [lineRules, lineEntries, ← uncommented, parseAdblock_of_not_anchored h]
  by_cases hnil : uncommented raw = []
  · rw [if_pos hnil, hnil]
    rfl
  · have hwords : Str.splitWhitespace (uncommented raw) = [uncommented raw] := by
      rw [Str.splitWhitespace, List.splitOnP_eq_singleton hword]
      simp [hnil]
    rw [if_neg hnil, hwords]
    simp only [if_true]
    split
    · rfl
    · simp only [List.filterMap_cons, List.filterMap_nil, entryRule]
      cases normalize (uncommented raw) <;> rfl

/-! ### The wildcard of a domain -/

/-- What `normalize` looks at, once white space is off. -/
def lowered (s : Str) : Str := Str.toAsciiLowercase (Str.trimEndMatches '.' s)

theorem stripWildcard_of_no_star {s : Str} (h : '*' ∉ s) : stripWildcard s = (false, s) := by
  have hstar : '*' ∈ "*.".toList := List.mem_cons_self
  rw [stripWildcard, Str.stripPrefix_eq_none hstar h]

theorem star_not_mem_lowered {s : Str} (h : '*' ∉ s) : '*' ∉ lowered s := by
  intro hin
  obtain ⟨c, hc, hstar⟩ := List.mem_map.mp hin
  rcases Str.toLower_cases c with hsame | ⟨hlow, _, hval⟩
  · rw [hsame] at hstar
    exact h (hstar ▸ (List.rdropWhile_prefix _ _).subset hc)
  · rw [hstar] at hval
    have hcode : '*'.toNat = 42 := rfl
    omega

theorem normalize_of_no_star {d : Str} (h : '*' ∉ d) :
    normalize d = if domainOk (lowered (Str.trim d)) then some (.exact (lowered (Str.trim d)))
      else none := by
  have hstar : '*' ∉ lowered (Str.trim d) :=
    star_not_mem_lowered fun hin => h (Str.mem_of_mem_trim hin)
  rw [normalize, ← lowered]
  simp only [stripWildcard_of_no_star hstar]
  cases domainOk (lowered (Str.trim d)) <;> rfl

theorem trim_wildcardText (d : Str) :
    Str.trim (wildcardText d) = '*' :: '.' :: d.rdropWhile Str.isWhitespace := by
  have hstar : Str.isWhitespace '*' = false := by decide
  have hdot : Str.isWhitespace '.' = false := by decide
  show (('*' :: '.' :: d).dropWhile Str.isWhitespace).rdropWhile Str.isWhitespace = _
  rw [List.dropWhile_cons_of_neg (by simp [hstar]), Str.rdropWhile_cons_of_not hstar,
    Str.rdropWhile_cons_of_not hdot]

theorem normalize_wildcardText (d : Str) :
    normalize (wildcardText d) =
      if domainOk (lowered (d.rdropWhile Str.isWhitespace)) then
        some (.wildcard (lowered (d.rdropWhile Str.isWhitespace)))
      else none := by
  rw [normalize, trim_wildcardText]
  generalize d.rdropWhile Str.isWhitespace = t
  by_cases ht : Str.trimEndMatches '.' t = []
  · -- nothing is left of the domain, and the dot of `*.` goes with it
    have hdots : Str.trimEndMatches '.' ('*' :: '.' :: t) = ['*'] := by
      have hrest : ('.' :: t).rdropWhile (· == '.') = [] := by
        rw [Str.trimEndMatches, List.rdropWhile_eq_nil_iff] at ht
        rw [List.rdropWhile_eq_nil_iff]
        exact List.forall_mem_cons.mpr ⟨rfl, ht⟩
      rw [Str.trimEndMatches, Str.rdropWhile_cons_of_not (by decide), hrest]
    have hlow : lowered t = [] := by rw [lowered, ht]; rfl
    rw [hdots, hlow]
    rfl
  · have hdots : Str.trimEndMatches '.' ('*' :: '.' :: t) =
        "*.".toList ++ Str.trimEndMatches '.' t := by
      have happend := Str.rdropWhile_append (· == '.') "*.".toList t
      exact happend.trans (if_neg ht)
    -- otherwise the wildcard is stripped off again
    have hstrip : stripWildcard (Str.toAsciiLowercase ("*.".toList ++ Str.trimEndMatches '.' t)) =
        (true, lowered t) := by
      have hmap : Str.toAsciiLowercase ("*.".toList ++ Str.trimEndMatches '.' t) =
          "*.".toList ++ lowered t := by
        rw [lowered, Str.toAsciiLowercase, Str.toAsciiLowercase, List.map_append]
        rfl
      rw [hmap, stripWildcard, Str.stripPrefix_append]
    rw [hdots]
    simp only [hstrip]
    cases domainOk (lowered t) <;> rfl

/-- Without white space in front of it, a domain and its wildcard are accepted alike. -/
theorem normalize_wildcardText_of_domain {d : Str} (hstar : '*' ∉ d) (hblank : ¬ StartsBlank d) :
    normalize (wildcardText d) = (normalize d).map fun e => .wildcard e.domain := by
  have htrim : Str.trim d = d.rdropWhile Str.isWhitespace := by
    cases d with
    | nil => rfl
    | cons c d =>
      have hc : ¬ Str.isWhitespace c = true := fun hc => hblank ⟨c, rfl, hc⟩
      rw [Str.trim, List.dropWhile_cons_of_neg hc]
  rw [normalize_wildcardText, normalize_of_no_star hstar, htrim]
  split <;> rfl

/-- White space in front survives behind `*.` and is no part of a label. -/
theorem normalize_wildcardText_of_blank {d : Str} (hblank : StartsBlank d) :
    normalize (wildcardText d) = none := by
  obtain ⟨c, hhead, hc⟩ := hblank
  obtain ⟨rest, rfl⟩ := List.head?_eq_some_iff.mp hhead
  rw [normalize_wildcardText, if_neg]
  intro hok
  rcases List.prefix_cons_iff.mp (List.rdropWhile_prefix Str.isWhitespace (c :: rest)) with
    hnil | ⟨t, ht, _⟩
  · rw [hnil] at hok
    exact absurd hok (by decide)
  · have hdot : (c == '.') = false := by
      apply beq_false_of_ne
      rintro rfl
      exact absurd hc (by decide)
    have hlow : lowered (c :: t) = c.toLower :: lowered t :=
      congrArg Str.toAsciiLowercase (Str.rdropWhile_cons_of_not (p := (· == '.')) hdot t)
    rw [ht, hlow] at hok
    have hspace : Str.isWhitespace c.toLower = true := by rwa [Str.isWhitespace_toLower]
    rcases domainOk_chars hok c.toLower List.mem_cons_self with h | h | h | h
    · exact absurd hspace (by rw [h]; decide)
    · exact absurd hspace (by rw [Str.isWhitespace_of_isAlphanum h]; exact Bool.false_ne_true)
    · exact absurd hspace (by rw [h]; decide)
    · exact absurd hspace (by rw [h]; decide)

/-! ### The rule of a body -/

theorem ruleDomain_append_ruleTail (body : Str) : ruleDomain body ++ ruleTail body = body :=
  List.takeWhile_append_dropWhile

theorem separator_not_mem_ruleDomain (body : Str) : '^' ∉ ruleDomain body := by
  intro hin
  have hsep := List.mem_takeWhile_imp hin
  simp at hsep

theorem separator_of_ruleTail {body t : Str} {c : Char} (h : ruleTail body = c :: t) :
    c = '^' ∨ c = '$' ∨ c = '/' := by
  have hstop := List.dropWhile_get_zero_not (fun c => decide (c ≠ '^' ∧ c ≠ '$' ∧ c ≠ '/')) body
    (by rw [← ruleTail, h]; simp)
  have hhead : (body.dropWhile fun c => decide (c ≠ '^' ∧ c ≠ '$' ∧ c ≠ '/')) = c :: t := h
  simp only [hhead, List.get_eq_getElem, List.getElem_cons_zero, decide_eq_true_eq] at hstop
  tauto

/-- Text after the domain other than a final separator keeps the body from being a domain. -/
theorem normalize_eq_none_of_tail {body : Str}
    (h : ¬ (ruleTail body = [] ∨ ruleTail body = ['^'])) :
    normalize ((Str.stripSuffixChar '^' body).getD body) = none := by
  obtain ⟨c, t, htail⟩ := List.exists_cons_of_ne_nil fun hnil => h (.inl hnil)
  have hsep := separator_of_ruleTail htail
  have hbody := ruleDomain_append_ruleTail body
  rw [htail] at hbody
  have hmem : c ∈ (Str.stripSuffixChar '^' body).getD body := by
    cases hstrip : Str.stripSuffixChar '^' body with
    | none =>
      rw [Option.getD_none, ← hbody]
      exact List.mem_append_right _ List.mem_cons_self
    | some b =>
      have hb := Str.stripSuffixChar_eq_some hstrip
      -- the separator that is dropped is not the first one
      have ht : t ≠ [] := by
        rintro rfl
        have hlast := hbody.trans hb
        have hc := (List.append_inj' hlast rfl).2
        exact h (.inr (htail.trans hc))
      have hdrop : b = ruleDomain body ++ c :: t.dropLast := by
        have heq := congrArg List.dropLast (hbody.trans hb)
        rw [List.dropLast_append_of_ne_nil (List.cons_ne_nil c t),
          List.dropLast_cons_of_ne_nil ht, List.dropLast_concat] at heq
        exact heq.symm
      rw [Option.getD_some, hdrop]
      exact List.mem_append_right _ List.mem_cons_self
  apply normalize_eq_none_of_mem hmem
  rcases hsep with rfl | rfl | rfl <;> decide

theorem stripSeparator {body : Str} (h : ruleTail body = [] ∨ ruleTail body = ['^']) :
    (Str.stripSuffixChar '^' body).getD body = ruleDomain body := by
  have hbody := ruleDomain_append_ruleTail body
  rcases h with htail | htail
  · rw [htail, List.append_nil] at hbody
    have hlast : body.getLast? ≠ some '^' := fun hl =>
      separator_not_mem_ruleDomain body (hbody.symm ▸ List.mem_of_getLast? hl)
    rw [Str.stripSuffixChar, if_neg hlast, Option.getD_none, hbody]
  · rw [htail] at hbody
    have hstrip := Str.stripSuffixChar_concat '^' (ruleDomain body)
    rw [hbody] at hstrip
    rw [hstrip, Option.getD_some]

theorem bodyRule_eq (exception : Bool) (body : Str) :
    bodyRule exception body =
      if (ruleTail body = [] ∨ ruleTail body = ['^']) ∧ '*' ∉ ruleDomain body then
        (normalize (ruleDomain body)).map fun e => ⟨exception, .wildcard e.domain⟩
      else none := by
  rw [bodyRule]
  by_cases htail : ruleTail body = [] ∨ ruleTail body = ['^']
  · simp only [stripSeparator htail, htail, true_and]
    by_cases hstar : '*' ∈ ruleDomain body
    · rw [if_pos hstar, if_neg (not_not_intro hstar)]
    · rw [if_neg hstar, if_pos hstar]
  · have hcond : ¬ ((ruleTail body = [] ∨ ruleTail body = ['^']) ∧ '*' ∉ ruleDomain body) :=
      fun h => htail h.1
    rw [if_neg hcond]
    simp only [normalize_eq_none_of_tail htail, Option.map_none, ite_self]

/-- The code and the syntax agree on a body exactly under `ExactBody`. -/
theorem codedRule_eq_bodyRule_iff (exception : Bool) (body : Str) :
    codedRule exception body = bodyRule exception body ↔ ExactBody body := by
  rw [codedRule, bodyRule_eq, ExactBody]
  by_cases hmod : '$' ∈ ruleTail body ∨ '/' ∈ ruleTail body
  · -- a modifier or a path: declined, and no domain either
    have hplain : ¬ (ruleTail body = [] ∨ ruleTail body = ['^']) := by
      rintro (h | h) <;> simp [h] at hmod
    have hcond : ¬ ((ruleTail body = [] ∨ ruleTail body = ['^']) ∧ '*' ∉ ruleDomain body) :=
      fun h => hplain h.1
    rw [if_neg hcond, if_pos (hmod.elim .inl fun h => .inr (.inl h))]
    exact iff_of_true rfl (hmod.elim .inl fun h => .inr (.inl h))
  by_cases hstar : '*' ∈ ruleDomain body
  · simp [hstar]
  cases hnorm : normalize (ruleDomain body) with
  | none =>
    -- no domain in either reading
    have hwild : normalize (wildcardText (ruleDomain body)) = none := by
      by_cases hblank : StartsBlank (ruleDomain body)
      · exact normalize_wildcardText_of_blank hblank
      · rw [normalize_wildcardText_of_domain hstar hblank, hnorm, Option.map_none]
    simp [hwild]
  | some e =>
    -- there is a domain, so what comes behind it decides
    have hne : ruleDomain body ≠ [] := by
      intro hnil
      have hempty : normalize [] = none := rfl
      rw [hnil, hempty] at hnorm
      cases hnorm
    have hdeclined : ¬ ('$' ∈ ruleTail body ∨ '/' ∈ ruleTail body ∨ ruleDomain body = [] ∨
        '*' ∈ ruleDomain body) := by
      rintro (h | h | h | h)
      · exact hmod (.inl h)
      · exact hmod (.inr h)
      · exact hne h
      · exact hstar h
    rw [if_neg hdeclined]
    rw [not_or] at hmod
    by_cases hblank : StartsBlank (ruleDomain body)
    · rw [normalize_wildcardText_of_blank hblank]
      by_cases hplain : ruleTail body = [] ∨ ruleTail body = ['^']
      · simp [hplain, hstar, hmod, hblank]
      · simp [hplain, hstar, hmod, hblank]
    · rw [normalize_wildcardText_of_domain hstar hblank, hnorm]
      by_cases hplain : ruleTail body = [] ∨ ruleTail body = ['^']
      · simp [hplain, hstar, hmod, hblank]
      · simp [hplain, hstar, hmod, hblank]

/-! ### Lines -/

/-- The rules a matcher started empty holds are those added to it. -/
theorem addRule_empty_injective (id : SourceId) {r r' : ListRule}
    (h : addRule id {} r = addRule id {} r') : r = r' := by
  obtain ⟨allow, e⟩ := r
  cases allow with
  | false =>
    have hid := blockId_addRule id {} r' e
    rw [← h, blockId_addRule, if_pos rfl] at hid
    split at hid
    · next heq => exact heq.symm
    · cases e <;> cases hid
  | true =>
    have hin := (hasAllow_addRule id {} r' e).mp (h ▸ (hasAllow_addRule id {} _ e).mpr (.inl rfl))
    rcases hin with heq | hnot
    · exact heq.symm
    · cases e <;> exact absurd hnot (Finset.notMem_empty _)

theorem addRule_empty_ne (id : SourceId) (r : ListRule) : addRule id {} r ≠ {} := by
  obtain ⟨allow, e⟩ := r
  intro h
  cases allow with
  | false =>
    have hid := blockId_addRule id {} ⟨false, e⟩ e
    rw [h, if_pos rfl] at hid
    cases e <;> cases hid
  | true =>
    have hin := (hasAllow_addRule id {} ⟨true, e⟩ e).mpr (.inl rfl)
    rw [h] at hin
    cases e <;> exact absurd hin (Finset.notMem_empty _)

theorem honoured_iff_rule {raw : Str} {o : Option ListRule}
    (h : lineRules false raw = o.toList) : Honoured raw ↔ o = abpRule raw := by
  rw [Honoured]
  constructor
  · intro hall
    have hempty := hall {} 0
    rw [ingestLine_eq, h] at hempty
    cases o with
    | none =>
      cases hrule : abpRule raw with
      | none => rfl
      | some r =>
        rw [hrule] at hempty
        exact absurd hempty.symm (addRule_empty_ne 0 r)
    | some r =>
      cases hrule : abpRule raw with
      | none =>
        rw [hrule] at hempty
        exact absurd hempty (addRule_empty_ne 0 r)
      | some r' =>
        rw [hrule] at hempty
        exact congrArg some (addRule_empty_injective 0 hempty)
  · rintro rfl bl id
    rw [ingestLine_eq, h]
    cases abpRule raw <;> rfl

theorem trim_append_anchor {anchor : Str} (hne : anchor ≠ [])
    (hanchor : ∀ c ∈ anchor, Str.isWhitespace c = false) (s : Str) :
    ∃ t, Str.trim (anchor ++ s) = anchor ++ t := by
  have hhead : (anchor ++ s).dropWhile Str.isWhitespace = anchor ++ s := by
    cases anchor with
    | nil => exact absurd rfl hne
    | cons c anchor =>
      have hc := hanchor c List.mem_cons_self
      exact List.dropWhile_cons_of_neg (by simp [hc])
  have hself : anchor.rdropWhile Str.isWhitespace = anchor := by
    rw [List.rdropWhile_eq_self_iff]
    intro hl
    simp [hanchor _ (List.getLast_mem hl)]
  rw [Str.trim, hhead, Str.rdropWhile_append, hself]
  split
  · exact ⟨[], (List.append_nil anchor).symm⟩
  · exact ⟨_, rfl⟩

theorem uncommented_trim (raw : Str) : uncommented (Str.trim raw) = uncommented raw :=
  Str.trim_takeWhile_trim isWhitespace_not_comment raw

theorem uncommented_append_anchor (anchor : Str) (hne : anchor ≠ [])
    (hanchor : (anchor.all fun c => c ≠ '#' ∧ c ≠ '!' ∧ Str.isWhitespace c = false) = true)
    (s : Str) : ∃ t, uncommented (anchor ++ s) = anchor ++ t := by
  have hanchor : ∀ c ∈ anchor, c ≠ '#' ∧ c ≠ '!' ∧ Str.isWhitespace c = false :=
    fun c hc => of_decide_eq_true (List.all_eq_true.mp hanchor c hc)
  have htake : (anchor ++ s).takeWhile (fun c => c ≠ '#' ∧ c ≠ '!') =
      anchor ++ s.takeWhile (fun c => c ≠ '#' ∧ c ≠ '!') :=
    List.takeWhile_append_of_pos fun c hc =>
      decide_eq_true ⟨(hanchor c hc).1, (hanchor c hc).2.1⟩
  rw [uncommented, htake]
  exact trim_append_anchor hne (fun c hc => (hanchor c hc).2.2) _

theorem anchored_of_initial {raw : Str}
    (h : "||".toList <+: Str.trim raw ∨ "@@||".toList <+: Str.trim raw) :
    anchored (uncommented raw) ≠ none := by
  rw [← uncommented_trim]
  rcases h with ⟨s, hs⟩ | ⟨s, hs⟩
  · obtain ⟨t, ht⟩ := uncommented_append_anchor "||".toList (by decide) (by decide) s
    have hat : Str.stripPrefix "@@||".toList ("||".toList ++ t) = none := rfl
    rw [← hs, ht, anchored, hat, Str.stripPrefix_append]
    exact Option.some_ne_none (false, t)
  · obtain ⟨t, ht⟩ := uncommented_append_anchor "@@||".toList (by decide) (by decide) s
    rw [← hs, ht, anchored, Str.stripPrefix_append]
    exact Option.some_ne_none (true, t)

/-- The comment cut takes the selector away with the separator, and leaves the domains. -/
theorem word_of_elementHiding {raw : Str} (h : ElementHiding (Str.trim raw)) :
    ∀ c ∈ uncommented raw, Str.isWhitespace c = false := by
  obtain ⟨domains, sep, rest, hline, hsep, hdomains⟩ := h
  have hhash : ∃ sep', sep = '#' :: sep' := by
    have hall : ∀ s ∈ ["##".toList, "#@#".toList, "#?#".toList], s.head? = some '#' := by decide
    exact List.head?_eq_some_iff.mp (hall sep hsep)
  obtain ⟨sep', rfl⟩ := hhash
  have htake : (Str.trim raw).takeWhile (fun c => c ≠ '#' ∧ c ≠ '!') = domains := by
    rw [hline, List.append_assoc, List.takeWhile_append_of_pos fun c hc =>
      decide_eq_true ⟨(hdomains c hc).1, (hdomains c hc).2.1⟩]
    exact List.append_nil domains
  intro c hc
  rw [← uncommented_trim, uncommented, htake] at hc
  exact (hdomains c (Str.mem_of_mem_trim hc)).2.2

/-- A line in Adblock Plus syntax is honoured exactly under `Exact`. -/
theorem honoured_iff_exact {raw : Str} (h : IsAbp raw) : Honoured raw ↔ Exact raw := by
  cases hanch : anchored (uncommented raw) with
  | some rule =>
    obtain ⟨exception, body⟩ := rule
    rw [honoured_iff_rule (lineRules_of_anchored hanch), abpRule, Exact, hanch]
    exact codedRule_eq_bodyRule_iff exception body
  | none =>
    have hhiding : ElementHiding (Str.trim raw) := by
      rcases h with h | h | h
      · exact absurd hanch (anchored_of_initial (.inl h))
      · exact absurd hanch (anchored_of_initial (.inr h))
      · exact h
    rw [honoured_iff_rule (lineRules_of_word hanch (word_of_elementHiding hhiding)), abpRule,
      Exact, hanch]
    by_cases hmarker : uncommented raw ∈ hostsMarkers
    · simp [hmarker]
    · simp [hmarker]

theorem honoured_iff_exact_popup :
    Honoured "||ads.example^$popup".toList ↔ Exact "||ads.example^$popup".toList :=
  honoured_iff_exact (.inl ⟨"ads.example^$popup".toList, by decide⟩)

def bannerRule : Str := "shop.example##.banner".toList

def pathRule : Str := "||shop.example^banner".toList

/-- Both rules are about a part of a page, and block the whole site. -/
theorem adblock_not_honoured :
    (IsAbp bannerRule ∧ lineRules false bannerRule = [⟨false, .exact "shop.example".toList⟩] ∧
      abpRule bannerRule = none ∧ ¬ Honoured bannerRule) ∧
    (IsAbp pathRule ∧ lineRules false pathRule = [⟨false, .wildcard "shop.example".toList⟩] ∧
      abpRule pathRule = none ∧ ¬ Honoured pathRule) := by
  have hbanner : lineRules false bannerRule =
      (some ⟨false, .exact "shop.example".toList⟩ : Option ListRule).toList := by decide
  have hpath : lineRules false pathRule =
      (some ⟨false, .wildcard "shop.example".toList⟩ : Option ListRule).toList := by decide
  have hbanner' : abpRule bannerRule = none := by decide
  have hpath' : abpRule pathRule = none := by decide
  have hplain : ("shop.example".toList.all fun c =>
      c ≠ '#' ∧ c ≠ '!' ∧ Str.isWhitespace c = false) = true := by decide
  have hhiding : ElementHiding (Str.trim bannerRule) :=
    ⟨"shop.example".toList, "##".toList, ".banner".toList, rfl, by decide,
      fun c hc => of_decide_eq_true (List.all_eq_true.mp hplain c hc)⟩
  refine ⟨⟨.inr (.inr hhiding), hbanner, hbanner', ?_⟩,
    ⟨.inl ⟨"shop.example^banner".toList, by decide⟩, hpath, hpath', ?_⟩⟩
  · rw [honoured_iff_rule hbanner, hbanner']
    exact Option.some_ne_none _
  · rw [honoured_iff_rule hpath, hpath']
    exact Option.some_ne_none _

end Netwatch.Blocklist
