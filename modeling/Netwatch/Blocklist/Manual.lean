import Netwatch.Blocklist.Rules

/-!
# The manual lists

`append_manual` and `remove_manual` of `blocklist.rs` edit a list file that an operator may
also have written by hand. Seen as the set of its listed lines, a file gains the domain of
an `append` and loses that of a `remove`.

## Main definitions

- `ListFile` — what a path holds, as far as `read_to_string` can tell
- `appendManual`, `removeManual` — the two edits
- `rules` — the rules of a list file
-/

namespace Netwatch.Blocklist

open RustStd

inductive ListFile
  | missing
  /-- The bytes are not UTF-8, and stay so when ASCII text is appended. -/
  | garbled
  | text (contents : Str)
  deriving DecidableEq

def ListFile.readToString : ListFile → Option Str
  | .missing => none
  | .garbled => none
  | .text contents => some contents

/-- `OpenOptions::new().create(true).append(true)`, then one line -/
def ListFile.writeln (file : ListFile) (line : Str) : ListFile :=
  match file with
  | .missing => .text (line ++ ['\n'])
  | .garbled => .garbled
  | .text contents => .text (contents ++ (line ++ ['\n']))

inductive ManualError
  /-- `{domain:?} is not a valid domain` -/
  | notValidDomain (domain : Str)
  /-- An error of the file system, passed on by `?`. -/
  | io (cause : Str)
  deriving DecidableEq

def isValidDomain (domain : Str) : Bool := (normalize domain).isSome

def manualDomain (domain : Str) : Str := Str.toAsciiLowercase (Str.trim domain)

def listsDomain (existing domain : Str) : Bool :=
  (Str.lines existing).any fun l => Str.trim l = domain

def kept (existing domain : Str) : List Str :=
  (Str.lines existing).filter fun l => Str.trim l ≠ domain

def appendManual (domain : Str) (file : ListFile) : Except ManualError Unit × ListFile :=
  let domain := manualDomain domain
  if !(normalize domain).isSome then (.error (.notValidDomain domain), file)
  else match file.readToString with
    | some existing =>
      if listsDomain existing domain then (.ok (), file) else (.ok (), file.writeln domain)
    | none => (.ok (), file.writeln domain)

def removeManual (domain : Str) (file : ListFile) : Except ManualError Unit × ListFile :=
  let domain := manualDomain domain
  match file.readToString with
  | none => (.ok (), file)
  | some existing => (.ok (), .text (Str.unlines (kept existing domain)))

inductive Edit
  | append (domain : Str)
  | remove (domain : Str)
  deriving DecidableEq

def Edit.domain : Edit → Str
  | .append domain => domain
  | .remove domain => domain

def Edit.exec (e : Edit) (file : ListFile) : Except ManualError Unit × ListFile :=
  match e with
  | .append domain => appendManual domain file
  | .remove domain => removeManual domain file

/-- `ingest_file` reads no rules from a file that is absent or not text. -/
def ListFile.contents (file : ListFile) : Str := file.readToString.getD []

/-- The rules of a list file, as a block list or an allow list. -/
def rules (allow : Bool) (file : ListFile) : Set ListRule :=
  { r | r ∈ textRules allow file.contents }

/-! ### Rules of listed lines -/

theorem mem_rules_text {allow : Bool} {s : Str} {r : ListRule} :
    r ∈ rules allow (.text s) ↔ ∃ t ∈ Str.listed s, r ∈ lineRules allow t := by
  have hblank : lineRules allow [] = [] := rfl
  show r ∈ textRules allow s ↔ _
  rw [textRules, List.mem_flatMap]
  constructor
  · rintro ⟨l, hl, hr⟩
    rw [← lineRules_trim] at hr
    refine ⟨Str.trim l, ⟨?_, l, hl, rfl⟩, hr⟩
    intro hnil
    rw [hnil, hblank] at hr
    exact absurd hr List.not_mem_nil
  · rintro ⟨_, ⟨_, l, hl, rfl⟩, hr⟩
    exact ⟨l, hl, lineRules_trim allow l ▸ hr⟩

theorem rules_eq_of_listed_eq {s t : Str} (h : Str.listed s = Str.listed t) (allow : Bool) :
    rules allow (.text s) = rules allow (.text t) := by
  ext r
  rw [mem_rules_text, mem_rules_text, h]

/-! ### The domain of an edit -/

theorem trim_manualDomain (domain : Str) :
    Str.trim (manualDomain domain) = manualDomain domain := by
  rw [manualDomain, Str.trim_toAsciiLowercase, Str.trim_trim]

theorem toAsciiLowercase_of_mem {s domain : Str} (h : s ⊆ manualDomain domain) :
    Str.toAsciiLowercase s = s := by
  have hlow : ∀ c ∈ s, c.toLower = id c := by
    intro c hc
    obtain ⟨c₀, _, rfl⟩ := List.mem_map.mp (h hc)
    exact Str.toLower_toLower c₀
  rw [Str.toAsciiLowercase, List.map_congr_left hlow, List.map_id]

/-- `normalize` finds nothing to trim or to lower, only the trailing dots are dropped. -/
theorem normalize_manualDomain (domain : Str) :
    normalize (manualDomain domain) =
      let (wild, d) := stripWildcard (Str.trimEndMatches '.' (manualDomain domain))
      if !domainOk d then none else some (if wild then .wildcard d else .exact d) := by
  have hsub : Str.trimEndMatches '.' (manualDomain domain) ⊆ manualDomain domain :=
    (List.rdropWhile_prefix _ _).subset
  rw [normalize, trim_manualDomain, toAsciiLowercase_of_mem hsub]

theorem normalize_manualDomain_eq (domain : Str) :
    normalize (manualDomain domain) = normalize domain := by
  have hdots : Str.trimEndMatches '.' (manualDomain domain) =
      Str.toAsciiLowercase (Str.trimEndMatches '.' (Str.trim domain)) :=
    Str.trimEndMatches_toAsciiLowercase (Str.trim domain)
  rw [normalize_manualDomain, normalize, hdots]

theorem manualDomain_chars {domain : Str}
    (h : (normalize (manualDomain domain)).isSome = true) :
    ∀ c ∈ manualDomain domain, c = '*' ∨ c = '.' ∨ c.isAlphanum = true ∨ c = '-' ∨ c = '_' := by
  intro c hc
  have hok : domainOk (stripWildcard (Str.trimEndMatches '.' (manualDomain domain))).2 = true := by
    rw [normalize_manualDomain] at h
    simp only at h
    split at h
    · cases h
    · next hnot => simpa using hnot
  rcases Str.mem_trimEndMatches '.' hc with rfl | hc'
  · exact .inr (.inl rfl)
  · rcases mem_stripWildcard hc' with hstar | hdot | hin
    · exact .inl hstar
    · exact .inr (.inl hdot)
    · exact .inr (domainOk_chars hok c hin)

theorem manualDomain_nonspace {domain : Str}
    (h : (normalize (manualDomain domain)).isSome = true) :
    ∀ c ∈ manualDomain domain, Str.isWhitespace c = false := by
  intro c hc
  rcases manualDomain_chars h c hc with rfl | rfl | halnum | rfl | rfl
  · decide
  · decide
  · exact Str.isWhitespace_of_isAlphanum halnum
  · decide
  · decide

theorem manualDomain_ne_nil {domain : Str} (h : (normalize (manualDomain domain)).isSome = true) :
    manualDomain domain ≠ [] := by
  intro hnil
  rw [hnil] at h
  exact absurd h (by decide)

/-- The line of an edited domain is a rule about it, unless it reads as the address of a
hosts line. -/
theorem lineRules_manualDomain {domain : Str} {e : Entry} (allow : Bool)
    (h : normalize (manualDomain domain) = some e) (hhosts : manualDomain domain ∉ hostsMarkers) :
    lineRules allow (manualDomain domain) = [⟨allow, e⟩] := by
  have hv : (normalize (manualDomain domain)).isSome = true := by rw [h]; rfl
  have hchars := manualDomain_chars hv
  have hnot : ∀ c : Char, ¬ (c = '*' ∨ c = '.' ∨ c.isAlphanum = true ∨ c = '-' ∨ c = '_') →
      c ∉ manualDomain domain := fun c hc hin => hc (hchars c hin)
  have htake : (manualDomain domain).takeWhile (fun c => c ≠ '#' ∧ c ≠ '!') =
      manualDomain domain := by
    rw [List.takeWhile_eq_self_iff]
    intro c hc
    rw [decide_eq_true_eq]
    constructor
    · rintro rfl
      exact hnot '#' (by decide) hc
    · rintro rfl
      exact hnot '!' (by decide) hc
  have hbracket : (manualDomain domain).head? ≠ some '[' := fun hb =>
    hnot '[' (by decide) (List.mem_of_mem_head? hb)
  have hat : Str.stripPrefix "@@".toList (manualDomain domain) = none :=
    Str.stripPrefix_eq_none List.mem_cons_self (hnot '@' (by decide))
  have hbar : Str.stripPrefix "||".toList (manualDomain domain) = none :=
    Str.stripPrefix_eq_none List.mem_cons_self (hnot '|' (by decide))
  have hwords : Str.splitWhitespace (manualDomain domain) = [manualDomain domain] := by
    rw [Str.splitWhitespace, List.splitOnP_eq_singleton (manualDomain_nonspace hv)]
    simp [manualDomain_ne_nil hv]
  have hparse : parseAdblock (manualDomain domain) = none := by
    simp only [parseAdblock, if_neg hbracket, hat, hbar]
  have hentries : lineEntries allow (manualDomain domain) = [(allow, manualDomain domain)] := by
    simp only [lineEntries, htake, trim_manualDomain, if_neg (manualDomain_ne_nil hv), hparse,
      hwords, if_neg hhosts, if_true]
  rw [lineRules, hentries]
  simp [entryRule, h]

theorem listsDomain_iff {s d : Str} (h : d ≠ []) : listsDomain s d = true ↔ d ∈ Str.listed s := by
  simp [listsDomain, Str.listed, h]

/-! ### Edits as operations on sets of lines -/

def Edit.Valid : Edit → Prop
  | .append domain => (normalize (manualDomain domain)).isSome = true
  | .remove _ => True

/-- What an edit is for. -/
def Edit.apply (lines : Set Str) : Edit → Set Str
  | .append domain => insert (manualDomain domain) lines
  | .remove domain => lines \ {manualDomain domain}

theorem appendManual_of_listed {s domain : Str}
    (hv : (normalize (manualDomain domain)).isSome = true)
    (h : manualDomain domain ∈ Str.listed s) : (appendManual domain (.text s)).2 = .text s := by
  have hdup := (listsDomain_iff (manualDomain_ne_nil hv)).mpr h
  simp [appendManual, hv, ListFile.readToString, hdup]

theorem appendManual_of_not_listed {s domain : Str}
    (hv : (normalize (manualDomain domain)).isSome = true)
    (h : manualDomain domain ∉ Str.listed s) :
    (appendManual domain (.text s)).2 = (ListFile.text s).writeln (manualDomain domain) := by
  have hdup := listsDomain_iff (s := s) (manualDomain_ne_nil hv)
  simp [appendManual, hv, ListFile.readToString, hdup, h]

theorem appendManual_of_unreadable {domain : Str} {file : ListFile}
    (hv : (normalize (manualDomain domain)).isSome = true) (h : file.readToString = none) :
    (appendManual domain file).2 = file.writeln (manualDomain domain) := by
  simp [appendManual, hv, h]

theorem exec_of_not_valid {e : Edit} (h : ¬ e.Valid) (file : ListFile) :
    (e.exec file).2 = file := by
  cases e with
  | append domain =>
    have hv : ¬ (normalize (manualDomain domain)).isSome = true := h
    simp [Edit.exec, appendManual, hv]
  | remove domain => exact absurd trivial h

theorem listed_writeln {s domain : Str} (hs : Str.Terminated s)
    (h : (normalize (manualDomain domain)).isSome = true) :
    ∃ t, (ListFile.text s).writeln (manualDomain domain) = .text t ∧ Str.Terminated t ∧
      Str.listed t = insert (manualDomain domain) (Str.listed s) :=
  ⟨_, rfl, .inr ⟨s ++ manualDomain domain, by simp⟩,
    Str.listed_append_line (by simp [Str.openLine_of_terminated hs]) (manualDomain_nonspace h)
      (manualDomain_ne_nil h)⟩

/-- On a file whose lines all end with a line feed an edit does what it is for. -/
theorem listed_exec {s : Str} {e : Edit} (hs : Str.Terminated s) (he : e.Valid) :
    ∃ t, (e.exec (.text s)).2 = .text t ∧ Str.Terminated t ∧
      Str.listed t = e.apply (Str.listed s) := by
  cases e with
  | append domain =>
    have hv : (normalize (manualDomain domain)).isSome = true := he
    rw [Edit.exec]
    by_cases hin : manualDomain domain ∈ Str.listed s
    · exact ⟨s, appendManual_of_listed hv hin, hs, (Set.insert_eq_of_mem hin).symm⟩
    · obtain ⟨t, htext, ht, hlisted⟩ := listed_writeln hs hv
      exact ⟨t, (appendManual_of_not_listed hv hin).trans htext, ht, hlisted⟩
  | remove domain =>
    exact ⟨_, rfl, Str.terminated_unlines _, Str.listed_unlines_filter s (manualDomain domain)⟩

/-- Absent, or a text whose lines all end with a line feed: what the edits leave behind. -/
def ListFile.Tidy (file : ListFile) : Prop :=
  file = .missing ∨ ∃ s, file = .text s ∧ Str.Terminated s

theorem Tidy.exec {file : ListFile} {e : Edit} (h : file.Tidy) (he : e.Valid) :
    (e.exec file).2.Tidy ∧
      Str.listed (e.exec file).2.contents = e.apply (Str.listed file.contents) := by
  rcases h with rfl | ⟨s, rfl, hs⟩
  · have hempty : Str.listed [] = ∅ := by
      ext t
      simp [Str.listed, Str.lines, Str.splitInclusive]
    cases e with
    | append domain =>
      have hv : (normalize (manualDomain domain)).isSome = true := he
      obtain ⟨t, htext, ht, hlisted⟩ := listed_writeln (s := []) (.inl rfl) hv
      have hexec : (appendManual domain .missing).2 = .text t :=
        (appendManual_of_unreadable hv rfl).trans htext
      rw [Edit.exec, hexec]
      exact ⟨.inr ⟨t, rfl, ht⟩, hlisted⟩
    | remove domain =>
      rw [Edit.exec, removeManual]
      refine ⟨.inl rfl, ?_⟩
      show Str.listed [] = Str.listed [] \ {manualDomain domain}
      rw [hempty, Set.empty_sdiff]
  · obtain ⟨t, htext, ht, hlisted⟩ := listed_exec hs he
    rw [htext]
    exact ⟨.inr ⟨t, rfl, ht⟩, hlisted⟩

theorem eq_of_mem_hostsMarkers {d : Str} {e : Entry} (h : normalize d = some e)
    (hd : d ∈ hostsMarkers) : d = "0.0.0.0.0".toList := by
  have hnone : ∀ m ∈ hostsMarkers, m ≠ "0.0.0.0.0".toList → normalize m = none := by decide
  by_contra hne
  rw [hnone d hd hne] at h
  cases h

theorem mem_rules_of_listed {file : ListFile} {domain : Str} {e : Entry}
    (hlisted : manualDomain domain ∈ Str.listed file.contents) (h : normalize domain = some e)
    (hhosts : manualDomain domain ≠ "0.0.0.0.0".toList) : ⟨false, e⟩ ∈ rules false file := by
  rw [← normalize_manualDomain_eq] at h
  have hmarker : manualDomain domain ∉ hostsMarkers := fun hin =>
    hhosts (eq_of_mem_hostsMarkers h hin)
  have hrule : (⟨false, e⟩ : ListRule) ∈ lineRules false (manualDomain domain) := by
    rw [lineRules_manualDomain false h hmarker]
    exact List.mem_singleton_self _
  show ⟨false, e⟩ ∈ rules false (.text file.contents)
  exact mem_rules_text.mpr ⟨_, hlisted, hrule⟩

end Netwatch.Blocklist
