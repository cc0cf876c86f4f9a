import Netwatch.Blocklist.Adblock
import Netwatch.Blocklist.Attribution
import Netwatch.RustStd.Ipv4Text

/-!
# Canonical entries

What the keys of the matcher look like, whatever texts it was built from, and which spellings
of an entry `normalize` takes for the same one.

## Main definitions

- `Canonical` — a lowercase name of at least two labels, no IPv4 literal
- `Entry.text` — an entry as a list would write it, `*.` included
- `Spells` — the text of an entry up to case, white space around it and dots at its end

## Main results

- `normalize_iff_spells` — a string is accepted iff it spells an entry with a canonical domain
- `keys_canonical` — every key is canonical, and an accepted string is any spelling of its entry
-/

namespace Netwatch.Blocklist

open RustStd

/-- `[a-z0-9_-]` -/
def IsNameChar (c : Char) : Prop := c.isLower = true ∨ c.isDigit = true ∨ c = '_' ∨ c = '-'

structure Canonical (d : Str) : Prop where
  lower : Str.toAsciiLowercase d = d
  length : Str.len d ≤ 253
  labels : 2 ≤ (d.splitOn '.').length
  label : ∀ l ∈ d.splitOn '.', 1 ≤ Str.len l ∧ Str.len l ≤ 63 ∧ ∀ c ∈ l, IsNameChar c
  no_wildcard : ¬ "*.".toList <+: d
  no_dot : d.getLast? ≠ some '.'
  not_ipv4 : IpAddr.parseIpv4 d = none

/-- A key of one of the four tables. -/
def IsKey (bl : Blocklist) (d : Str) : Prop :=
  d ∈ bl.exact ∨ d ∈ bl.wildcards ∨ d ∈ bl.allow ∨ d ∈ bl.allowWildcards

def Entry.text : Entry → Str
  | .exact d => d
  | .wildcard d => wildcardText d

def Spells (s : Str) (e : Entry) : Prop :=
  ∃ pre body dots post, s = pre ++ (body ++ dots ++ post) ∧ (∀ c ∈ pre, Str.isWhitespace c = true) ∧
    (∀ c ∈ dots, c = '.') ∧ (∀ c ∈ post, Str.isWhitespace c = true) ∧
    Str.toAsciiLowercase body = e.text

/-- `normalize` made the entry `e` of the string `s`. -/
structure Accepted (s : Str) (e : Entry) : Prop where
  canonical : Canonical e.domain
  idempotent : normalize e.text = some e
  spelled : ∀ s', normalize s' = some e ↔ Spells s' e
  same_rule : ∀ s', Spells s' e → ∀ (bl : Blocklist) (id : SourceId),
    bl.addBlock s' id = bl.addBlock s id ∧ bl.addAllow s' = bl.addAllow s

/-! ### The text of an entry -/

theorem star_not_mem_of_domainOk {d : Str} (h : domainOk d = true) : '*' ∉ d :=
  fun hin => absurd (domainOk_chars h '*' hin) (by decide)

theorem stripWildcard_text {e : Entry} (h : '*' ∉ e.domain) :
    stripWildcard e.text = match e with
      | .exact d => (false, d)
      | .wildcard d => (true, d) := by
  cases e with
  | exact d => exact stripWildcard_of_no_star h
  | wildcard d =>
    show stripWildcard ("*.".toList ++ d) = (true, d)
    rw [stripWildcard, Str.stripPrefix_append]

/-- An accepted string is the text of its entry, once blanks, dots and case are off. -/
theorem normalize_eq_some_iff {s : Str} {e : Entry} :
    normalize s = some e ↔ lowered (Str.trim s) = e.text ∧ domainOk e.domain = true := by
  rw [normalize, ← lowered]
  constructor
  · intro h
    cases hsplit : stripWildcard (lowered (Str.trim s)) with
    | mk wild d =>
      rw [hsplit] at h
      simp only at h
      split at h
      · cases h
      · next hok =>
        rw [← Option.some.inj h]
        rw [stripWildcard] at hsplit
        split at hsplit
        · next rest hrest =>
          obtain ⟨rfl, rfl⟩ := Prod.mk.inj hsplit
          exact ⟨Str.stripPrefix_eq_some hrest, by simpa [Entry.domain] using hok⟩
        · obtain ⟨rfl, rfl⟩ := Prod.mk.inj hsplit
          exact ⟨rfl, by simpa [Entry.domain] using hok⟩
  · rintro ⟨htext, hok⟩
    rw [htext, stripWildcard_text (star_not_mem_of_domainOk hok)]
    cases e with
    | exact d =>
      have hd : domainOk d = true := hok
      simp [hd]
    | wildcard d =>
      have hd : domainOk d = true := hok
      simp [hd]

theorem toAsciiLowercase_lowered (t : Str) : Str.toAsciiLowercase (lowered t) = lowered t := by
  rw [lowered, Str.toAsciiLowercase, Str.toAsciiLowercase, List.map_map]
  congr 1
  funext c
  exact Str.toLower_toLower c

theorem trimEndMatches_lowered (t : Str) : Str.trimEndMatches '.' (lowered t) = lowered t := by
  rw [lowered, Str.trimEndMatches_toAsciiLowercase]
  congr 1
  exact List.rdropWhile_idempotent _ _

theorem domain_suffix_text (e : Entry) : e.domain <:+ e.text := by
  cases e with
  | exact d => exact List.suffix_rfl
  | wildcard d => exact ⟨"*.".toList, rfl⟩

theorem isWhitespace_text {e : Entry} (h : domainOk e.domain = true) :
    ∀ c ∈ e.text, Str.isWhitespace c = false := by
  have hdomain : ∀ c ∈ e.domain, Str.isWhitespace c = false := by
    intro c hc
    rcases domainOk_chars h c hc with rfl | halnum | rfl | rfl
    · decide
    · exact Str.isWhitespace_of_isAlphanum halnum
    · decide
    · decide
  cases e with
  | exact d => exact hdomain
  | wildcard d =>
    show ∀ c ∈ '*' :: '.' :: d, Str.isWhitespace c = false
    rw [List.forall_mem_cons, List.forall_mem_cons]
    exact ⟨by decide, by decide, hdomain⟩

/-! ### Canonical domains -/

theorem isNameChar_of_lower {c : Char} (hlower : c.toLower = c)
    (h : c.isAlphanum = true ∨ c = '-' ∨ c = '_') : IsNameChar c := by
  rcases h with halnum | rfl | rfl
  · have hcases : (c.isUpper || c.isLower || c.isDigit) = true := halnum
    rw [Bool.or_eq_true, Bool.or_eq_true] at hcases
    rcases hcases with (hupper | hlow) | hdigit
    · have hrange := of_decide_eq_true hupper
      have hmoved := Str.toNat_toLower_of_upper (UInt32.le_iff_toNat_le.mp hrange.1)
        (UInt32.le_iff_toNat_le.mp hrange.2)
      rw [hlower] at hmoved
      omega
    · exact .inl hlow
    · exact .inr (.inl hdigit)
  · exact .inr (.inr (.inr rfl))
  · exact .inr (.inr (.inl rfl))

theorem isAlphanum_of_isNameChar {c : Char} (h : IsNameChar c) :
    c.isAlphanum = true ∨ c = '-' ∨ c = '_' := by
  have halnum : (c.isUpper || c.isLower || c.isDigit) = c.isAlphanum := rfl
  rcases h with hlow | hdigit | rfl | rfl
  · exact .inl (by rw [← halnum, hlow, Bool.or_true, Bool.true_or])
  · exact .inl (by rw [← halnum, hdigit, Bool.or_true])
  · exact .inr (.inr rfl)
  · exact .inr (.inl rfl)

theorem one_le_len_iff {l : Str} : 1 ≤ Str.len l ↔ l ≠ [] := by
  cases l with
  | nil => exact iff_of_false (by decide) fun h => h rfl
  | cons c l =>
    have hc := c.utf8Size_pos
    refine iff_of_true ?_ (List.cons_ne_nil c l)
    rw [Str.len, List.map_cons, List.sum_cons]
    omega

/-- A single label would be the whole domain, its dot included. -/
theorem two_le_labels_iff {d : Str} (h : ∀ l ∈ d.splitOn '.', labelOk l = true) :
    2 ≤ (d.splitOn '.').length ↔ '.' ∈ d := by
  constructor
  · intro htwo
    by_contra hdot
    rw [List.splitOn_eq_singleton hdot, List.length_singleton] at htwo
    omega
  · intro hdot
    cases hsplit : d.splitOn '.' with
    | nil => exact absurd hsplit (List.splitOn_ne_nil '.' d)
    | cons l ls =>
      cases ls with
      | nil =>
        have hd : ['.'].intercalate (d.splitOn '.') = d := List.intercalate_splitOn '.'
        rw [hsplit] at hd h
        have hl : l = d := by simpa [List.intercalate] using hd
        have hchars := (labelOk_iff.mp (h l List.mem_cons_self)).2.2
        exact absurd (hchars '.' (hl ▸ hdot)) (by decide)
      | cons l' ls => exact Nat.le_add_left 2 ls.length

theorem colon_not_mem {d : Str} (h : ∀ l ∈ d.splitOn '.', labelOk l = true) : ':' ∉ d :=
  fun hin => absurd (chars_of_labels h ':' hin) (by decide)

theorem canonical_of_domainOk {d : Str} (hlower : Str.toAsciiLowercase d = d)
    (hdot : d.getLast? ≠ some '.') (h : domainOk d = true) : Canonical d := by
  have hstar := star_not_mem_of_domainOk h
  obtain ⟨_, hlen, hin, hip, hlabels⟩ := domainOk_iff.mp h
  refine ⟨hlower, hlen, (two_le_labels_iff hlabels).mpr hin, ?_, ?_, hdot,
    (IpAddr.parse_eq_none_iff (colon_not_mem hlabels)).mp hip⟩
  · intro l hl
    obtain ⟨hne, hmax, hchars⟩ := labelOk_iff.mp (hlabels l hl)
    refine ⟨one_le_len_iff.mpr hne, hmax, fun c hc => ?_⟩
    have hsame : c.toLower = c :=
      List.map_eq_map_iff.mp (hlower.trans (List.map_id d).symm) c (Str.mem_of_mem_splitOn hl hc)
    exact isNameChar_of_lower hsame (hchars c hc)
  · rintro ⟨rest, rfl⟩
    exact hstar (List.mem_append_left _ List.mem_cons_self)

theorem domainOk_of_canonical {d : Str} (h : Canonical d) : domainOk d = true := by
  have hlabels : ∀ l ∈ d.splitOn '.', labelOk l = true := by
    intro l hl
    obtain ⟨hmin, hmax, hchars⟩ := h.label l hl
    exact labelOk_iff.mpr ⟨one_le_len_iff.mp hmin, hmax,
      fun c hc => isAlphanum_of_isNameChar (hchars c hc)⟩
  have hdot : '.' ∈ d := (two_le_labels_iff hlabels).mp h.labels
  exact domainOk_iff.mpr ⟨List.ne_nil_of_mem hdot, h.length, hdot,
    (IpAddr.parse_eq_none_iff (colon_not_mem hlabels)).mpr h.not_ipv4, hlabels⟩

theorem canonical_of_normalize {s : Str} {e : Entry} (h : normalize s = some e) :
    Canonical e.domain := by
  obtain ⟨htext, hok⟩ := normalize_eq_some_iff.mp h
  obtain ⟨pre, hpre⟩ := domain_suffix_text e
  have hlower : Str.toAsciiLowercase e.text = e.text := htext ▸ toAsciiLowercase_lowered _
  have hdots : Str.trimEndMatches '.' e.text = e.text := htext ▸ trimEndMatches_lowered _
  refine canonical_of_domainOk ?_ ?_ hok
  · rw [← hpre, Str.toAsciiLowercase, List.map_append] at hlower
    exact List.append_inj_right hlower (List.length_map _)
  · intro hlast
    -- a dot at the end would have been cut off
    have hconcat : e.text = pre ++ e.domain.dropLast ++ ['.'] := by
      rw [← hpre, List.append_assoc, List.dropLast_append_getLast? '.' hlast]
    rw [hconcat, Str.trimEndMatches, List.rdropWhile_concat_pos _ _ _ rfl] at hdots
    have hlen := (List.rdropWhile_prefix (· == '.') (pre ++ e.domain.dropLast)).length_le
    rw [hdots, List.length_append, List.length_singleton] at hlen
    omega

/-! ### Spellings -/

theorem toAsciiLowercase_text {e : Entry} (h : Canonical e.domain) :
    Str.toAsciiLowercase e.text = e.text := by
  cases e with
  | exact d => exact h.lower
  | wildcard d =>
    have happend : Str.toAsciiLowercase ("*.".toList ++ d) =
        "*.".toList ++ Str.toAsciiLowercase d := by
      rw [Str.toAsciiLowercase, List.map_append]
      rfl
    exact happend.trans (congrArg _ h.lower)

theorem trimEndMatches_text {e : Entry} (h : Canonical e.domain) :
    Str.trimEndMatches '.' e.text = e.text := by
  have hne : e.domain ≠ [] := (domainOk_iff.mp (domainOk_of_canonical h)).1
  obtain ⟨pre, hpre⟩ := domain_suffix_text e
  rw [Str.trimEndMatches, List.rdropWhile_eq_self_iff, ← hpre]
  intro htext hlast
  rw [List.getLast_append_of_ne_nil _ hne, beq_iff_eq] at hlast
  exact h.no_dot (by rw [List.getLast?_eq_some_getLast hne, hlast])

theorem spells_of_lowered {s : Str} {e : Entry} (h : lowered (Str.trim s) = e.text) :
    Spells s e := by
  obtain ⟨pre, post, hpre, hpost, hs⟩ := Str.exists_eq_trim s
  have hdots : Str.trimEndMatches '.' (Str.trim s) ++ (Str.trim s).rtakeWhile (· == '.') =
      Str.trim s := List.rdropWhile_append_rtakeWhile
  refine ⟨pre, Str.trimEndMatches '.' (Str.trim s), (Str.trim s).rtakeWhile (· == '.'), post, ?_,
    hpre, fun c hc => ?_, hpost, h⟩
  · rw [hdots]
    exact hs
  · exact eq_of_beq (@List.mem_rtakeWhile_imp _ (· == '.') _ _ hc)

theorem lowered_of_spells {s : Str} {e : Entry} (h : Canonical e.domain) (hs : Spells s e) :
    lowered (Str.trim s) = e.text := by
  obtain ⟨pre, body, dots, post, rfl, hpre, hdot, hpost, hbody⟩ := hs
  have hwhite : ∀ c ∈ body ++ dots, Str.isWhitespace c = false := by
    intro c hc
    rcases List.mem_append.mp hc with hin | hin
    · rw [← Str.isWhitespace_toLower]
      exact isWhitespace_text (domainOk_of_canonical h) _ (hbody ▸ List.mem_map_of_mem hin)
    · rw [hdot c hin]
      decide
  have hnil : dots.rdropWhile (· == '.') = [] :=
    List.rdropWhile_eq_nil_iff.mpr fun c hc => beq_iff_eq.mpr (hdot c hc)
  have hcut : Str.trimEndMatches '.' (body ++ dots) = Str.trimEndMatches '.' body := by
    rw [Str.trimEndMatches, Str.rdropWhile_append, if_pos hnil]
    rfl
  rw [Str.trim_prepend_of_forall hpre, Str.trim_append_of_forall _ hpost,
    Str.trim_eq_self_of_forall hwhite, lowered, hcut, ← Str.trimEndMatches_toAsciiLowercase, hbody,
    trimEndMatches_text h]

theorem normalize_iff_spells {s : Str} {e : Entry} :
    normalize s = some e ↔ Canonical e.domain ∧ Spells s e := by
  constructor
  · intro h
    exact ⟨canonical_of_normalize h, spells_of_lowered (normalize_eq_some_iff.mp h).1⟩
  · rintro ⟨hcanonical, hs⟩
    exact normalize_eq_some_iff.mpr
      ⟨lowered_of_spells hcanonical hs, domainOk_of_canonical hcanonical⟩

/-- Blanks, case and dots at the end are dropped, what stands between them is not. -/
example : normalize " *.Ads.Example.COM.. ".toList = some (.wildcard "ads.example.com".toList) ∧
    normalize "ads.example.com .".toList = none := by
  decide

theorem spells_text {e : Entry} (h : Canonical e.domain) : Spells e.text e := by
  refine ⟨[], e.text, [], [], by simp, ?_, ?_, ?_, toAsciiLowercase_text h⟩
  all_goals
    intro c hc
    cases hc

theorem accepted_of_normalize {s : Str} {e : Entry} (h : normalize s = some e) : Accepted s e := by
  have hcanonical := canonical_of_normalize h
  have hspelled : ∀ s', normalize s' = some e ↔ Spells s' e := fun s' =>
    normalize_iff_spells.trans (and_iff_right hcanonical)
  refine ⟨hcanonical, (hspelled e.text).mpr (spells_text hcanonical), hspelled, ?_⟩
  intro s' hs' bl id
  rw [addBlock, addBlock, addAllow, addAllow, (hspelled s').mpr hs', h]
  exact ⟨rfl, rfl⟩

/-! ### Every key -/

theorem canonical_of_ingested {calls : List IngestCall} {r : ListRule} (h : Ingested calls r) :
    Canonical r.entry.domain := by
  obtain ⟨c, _, hr⟩ := h
  simp only [IngestCall.rules, textRules, lineRules, List.mem_flatMap, List.mem_filterMap] at hr
  obtain ⟨_, _, line, _, hrule⟩ := hr
  obtain ⟨e, he, rfl⟩ := Option.map_eq_some_iff.mp hrule
  exact canonical_of_normalize he

theorem ingested_of_isKey {calls : List IngestCall} {d : Str} (h : IsKey (ingestAll calls) d) :
    ∃ r, Ingested calls r ∧ r.entry.domain = d := by
  have hreflects := reflects_ingestAll calls
  rcases h with h | h | h | h
  · exact ⟨⟨false, .exact d⟩, (hreflects.blockId_isSome_iff _).mp (AList.lookup_isSome.mpr h), rfl⟩
  · exact ⟨⟨false, .wildcard d⟩,
      (hreflects.blockId_isSome_iff _).mp (AList.lookup_isSome.mpr h), rfl⟩
  · exact ⟨⟨true, .exact d⟩, (hreflects.hasAllow_iff _).mp h, rfl⟩
  · exact ⟨⟨true, .wildcard d⟩, (hreflects.hasAllow_iff _).mp h, rfl⟩

theorem keys_canonical :
    (∀ (calls : List IngestCall) (d : Str), IsKey (ingestAll calls) d → Canonical d) ∧
      ∀ (s : Str) (e : Entry), normalize s = some e → Accepted s e := by
  refine ⟨fun calls d h => ?_, fun s e h => accepted_of_normalize h⟩
  obtain ⟨r, hr, rfl⟩ := ingested_of_isKey h
  exact canonical_of_ingested hr

end Netwatch.Blocklist
