import Netwatch.Blocklist.Manual
import Netwatch.Interleaving.Run

/-!
# Manual lists as sets of rules

A manual list stands for the rules `ingest` reads from it. Adding a domain should insert its
rule and removing it delete that rule, however the file spells it. The edits work on lines, and
a file written by hand has lines they do not expect.

## Main definitions

- `Edit.effect` — what an edit should do to the rules
- `Edit.Sound` — the file is one on which it does

## Main results

- `rules_exec` — one edit
- `rules_run_eq` — every sequence of edits that are sound where they happen
-/

namespace Netwatch.Blocklist

open RustStd Interleaving

/-- The rule of the normalised domain is inserted, or deleted. -/
def Edit.effect (allow : Bool) (R : Set ListRule) (e : Edit) : Set ListRule :=
  match normalize e.domain, e with
  | some entry, .append _ => insert ⟨allow, entry⟩ R
  | some entry, .remove _ => R \ {⟨allow, entry⟩}
  | none, _ => R

/-- An edit as a step of the list file. -/
def Edit.step (e : Edit) (file : ListFile) : ListFile := (e.exec file).2

/-- An `append` finds its line there, or nothing but white space behind the last line feed to
write it to. A `remove` finds the rule on no line but its own. -/
def Edit.Sound (allow : Bool) (e : Edit) (file : ListFile) : Prop :=
  match e with
  | .append domain =>
    manualDomain domain ≠ "0.0.0.0.0".toList ∧
      (listsDomain file.contents (manualDomain domain) = true ∨
        ∀ c ∈ Str.openLine file.contents, Str.isWhitespace c = true)
  | .remove domain =>
    ∀ entry ∈ normalize domain, ∀ l ∈ Str.lines file.contents,
      ⟨allow, entry⟩ ∈ lineRules allow l → Str.trim l = manualDomain domain

instance (allow : Bool) (e : Edit) (file : ListFile) : Decidable (e.Sound allow file) :=
  match e with
  | .append domain =>
    have : Decidable (∀ c ∈ Str.openLine file.contents, Str.isWhitespace c = true) :=
      List.decidableBAll _ _
    inferInstanceAs (Decidable (manualDomain domain ≠ "0.0.0.0.0".toList ∧
      (listsDomain file.contents (manualDomain domain) = true ∨
        ∀ c ∈ Str.openLine file.contents, Str.isWhitespace c = true)))
  | .remove domain =>
    inferInstanceAs (Decidable (∀ entry ∈ normalize domain, ∀ l ∈ Str.lines file.contents,
      ⟨allow, entry⟩ ∈ lineRules allow l → Str.trim l = manualDomain domain))

theorem Edit.effect_append {domain : Str} {entry : Entry} (h : normalize domain = some entry)
    (allow : Bool) (R : Set ListRule) :
    (Edit.append domain).effect allow R = insert ⟨allow, entry⟩ R := by
  have hdomain : normalize (Edit.append domain).domain = some entry := h
  unfold effect
  rw [hdomain]

theorem Edit.effect_remove {domain : Str} {entry : Entry} (h : normalize domain = some entry)
    (allow : Bool) (R : Set ListRule) :
    (Edit.remove domain).effect allow R = R \ {⟨allow, entry⟩} := by
  have hdomain : normalize (Edit.remove domain).domain = some entry := h
  unfold effect
  rw [hdomain]

/-- Listing one more line adds the rules of that line. -/
theorem rules_of_listed_insert {allow : Bool} {s t l : Str} {r : ListRule}
    (h : Str.listed t = insert l (Str.listed s)) (hl : lineRules allow l = [r]) :
    rules allow (.text t) = insert r (rules allow (.text s)) := by
  ext r'
  rw [Set.mem_insert_iff, mem_rules_text, mem_rules_text, h]
  constructor
  · rintro ⟨l', rfl | hin, hr⟩
    · exact .inl (List.mem_singleton.mp (hl ▸ hr))
    · exact .inr ⟨l', hin, hr⟩
  · rintro (rfl | ⟨l', hin, hr⟩)
    · exact ⟨l, .inl rfl, hl ▸ List.mem_singleton_self _⟩
    · exact ⟨l', .inr hin, hr⟩

theorem lineRules_of_accepted {allow : Bool} {domain : Str} {entry : Entry}
    (h : normalize domain = some entry) (hhosts : manualDomain domain ≠ "0.0.0.0.0".toList) :
    lineRules allow (manualDomain domain) = [⟨allow, entry⟩] := by
  rw [← normalize_manualDomain_eq] at h
  exact lineRules_manualDomain allow h fun hin => hhosts (eq_of_mem_hostsMarkers h hin)

theorem rules_appendManual {allow : Bool} {domain : Str} {entry : Entry} {file : ListFile}
    (hfile : file ≠ .garbled) (h : normalize domain = some entry)
    (hsound : (Edit.append domain).Sound allow file) :
    rules allow (appendManual domain file).2 = insert ⟨allow, entry⟩ (rules allow file) := by
  obtain ⟨hhosts, hline⟩ := hsound
  have hv : (normalize (manualDomain domain)).isSome = true := by
    rw [normalize_manualDomain_eq, h]
    rfl
  have hrule : lineRules allow (manualDomain domain) = [⟨allow, entry⟩] :=
    lineRules_of_accepted h hhosts
  have hwrite : (∀ c ∈ Str.openLine file.contents, Str.isWhitespace c = true) →
      rules allow (.text (file.contents ++ (manualDomain domain ++ ['\n']))) =
        insert ⟨allow, entry⟩ (rules allow file) := fun hopen =>
    rules_of_listed_insert (Str.listed_append_line hopen (manualDomain_nonspace hv)
      (manualDomain_ne_nil hv)) hrule
  cases file with
  | garbled => exact absurd rfl hfile
  | missing =>
    rw [appendManual_of_unreadable hv rfl]
    exact hwrite fun c hc => absurd hc List.not_mem_nil
  | text s =>
    by_cases hin : manualDomain domain ∈ Str.listed s
    · -- already a line of the file
      rw [appendManual_of_listed hv hin]
      refine (Set.insert_eq_of_mem ?_).symm
      exact mem_rules_text.mpr ⟨_, hin, hrule ▸ List.mem_singleton_self _⟩
    · rw [appendManual_of_not_listed hv hin]
      refine hwrite (hline.resolve_left fun hdup => hin ?_)
      exact (listsDomain_iff (manualDomain_ne_nil hv)).mp hdup

/-- The line of a domain is about no other rule. -/
theorem eq_of_mem_lineRules {allow : Bool} {domain : Str} {entry : Entry} {r : ListRule}
    (h : normalize domain = some entry) (hr : r ∈ lineRules allow (manualDomain domain)) :
    r = ⟨allow, entry⟩ := by
  by_cases hhosts : manualDomain domain = "0.0.0.0.0".toList
  · have hnone : lineRules allow "0.0.0.0.0".toList = [] := by cases allow <;> decide
    rw [hhosts, hnone] at hr
    exact absurd hr List.not_mem_nil
  · rw [lineRules_of_accepted h hhosts] at hr
    exact List.mem_singleton.mp hr

theorem rules_removeManual_text {allow : Bool} {domain s : Str} {entry : Entry}
    (h : normalize domain = some entry) (hsound : (Edit.remove domain).Sound allow (.text s)) :
    rules allow (.text (Str.unlines (kept s (manualDomain domain)))) =
      rules allow (.text s) \ {⟨allow, entry⟩} := by
  ext r
  rw [Set.mem_sdiff, Set.mem_singleton_iff, mem_rules_text, mem_rules_text, kept,
    Str.listed_unlines_filter]
  constructor
  · rintro ⟨t, ⟨ht, hne⟩, hr⟩
    refine ⟨⟨t, ht, hr⟩, ?_⟩
    rintro rfl
    obtain ⟨_, l, hl, rfl⟩ := ht
    rw [lineRules_trim] at hr
    exact hne (hsound entry h l hl hr)
  · rintro ⟨⟨t, ht, hr⟩, hne⟩
    refine ⟨t, ⟨ht, ?_⟩, hr⟩
    rintro rfl
    exact hne (eq_of_mem_lineRules h hr)

theorem rules_removeManual {allow : Bool} {domain : Str} {entry : Entry} {file : ListFile}
    (h : normalize domain = some entry) (hsound : (Edit.remove domain).Sound allow file) :
    rules allow (removeManual domain file).2 = rules allow file \ {⟨allow, entry⟩} := by
  have hempty : rules allow .missing = ∅ := by
    ext r
    simp [rules, ListFile.contents, ListFile.readToString, textRules, Str.lines,
      Str.splitInclusive]
  cases file with
  | text s => exact rules_removeManual_text h hsound
  | missing =>
    show rules allow .missing = rules allow .missing \ _
    rw [hempty, Set.empty_sdiff]
  | garbled =>
    show rules allow .missing = rules allow .missing \ _
    rw [hempty, Set.empty_sdiff]

theorem rules_exec {allow : Bool} {e : Edit} {file : ListFile} (hfile : file ≠ .garbled)
    (he : isValidDomain e.domain = true) (hsound : e.Sound allow file) :
    rules allow (e.step file) = e.effect allow (rules allow file) := by
  obtain ⟨entry, h⟩ := Option.isSome_iff_exists.mp he
  cases e with
  | append domain =>
    have h : normalize domain = some entry := h
    rw [Edit.effect_append h, Edit.step, Edit.exec]
    exact rules_appendManual hfile h hsound
  | remove domain =>
    have h : normalize domain = some entry := h
    rw [Edit.effect_remove h, Edit.step, Edit.exec]
    exact rules_removeManual h hsound

theorem step_ne_garbled {e : Edit} {file : ListFile} (h : file ≠ .garbled) :
    e.step file ≠ .garbled := by
  cases file with
  | garbled => exact absurd rfl h
  | missing =>
    cases e with
    | remove domain => exact h
    | append domain =>
      by_cases hv : (normalize (manualDomain domain)).isSome = true
      · rw [Edit.step, Edit.exec, appendManual_of_unreadable hv rfl]
        exact ListFile.noConfusion
      · rw [Edit.step, exec_of_not_valid (e := .append domain) hv]
        exact h
  | text s =>
    cases e with
    | remove domain => exact ListFile.noConfusion
    | append domain =>
      by_cases hv : (normalize (manualDomain domain)).isSome = true
      · by_cases hin : manualDomain domain ∈ Str.listed s
        · rw [Edit.step, Edit.exec, appendManual_of_listed hv hin]
          exact h
        · rw [Edit.step, Edit.exec, appendManual_of_not_listed hv hin]
          exact ListFile.noConfusion
      · rw [Edit.step, exec_of_not_valid (e := .append domain) hv]
        exact h

/-- Every sequence of edits, each sound in the file it finds, does to the rules what it is
for. -/
theorem rules_run_eq {allow : Bool} {file : ListFile} {edits : List Edit}
    (hfile : file ≠ .garbled) (hvalid : ∀ e ∈ edits, isValidDomain e.domain = true)
    (hsound : Along Edit.step (Edit.Sound allow) edits file) :
    ∀ n, rules allow (run Edit.step (edits.take n) file) =
      (edits.take n).foldl (Edit.effect allow) (rules allow file) := by
  induction edits generalizing file with
  | nil =>
    intro n
    rw [List.take_nil]
    rfl
  | cons e edits ih =>
    intro n
    cases n with
    | zero => rfl
    | succ n =>
      have hrest := ih (step_ne_garbled hfile)
        (fun e' he' => hvalid e' (List.mem_cons_of_mem e he')) hsound.2 n
      rw [List.take_succ_cons, run_cons, hrest, List.foldl_cons,
        rules_exec hfile (hvalid e List.mem_cons_self) hsound.1]

/-- A file written by hand, with upper case, a trailing dot and a comment. -/
def handWritten : ListFile := .text "Ads.example.\nshop.example # ours\n".toList

def newsEdits : List Edit := [.append "News.example".toList, .remove "news.example".toList]

theorem rules_run_eq_newsEdits :
    rules false (run Edit.step newsEdits handWritten) =
      newsEdits.foldl (Edit.effect false) (rules false handWritten) := by
  have hsound : Along Edit.step (Edit.Sound false) newsEdits handWritten := by decide
  exact rules_run_eq (by decide) (by decide) hsound 2

def openFile : ListFile := .text "ads.example".toList

/-- Without a line feed at the end the new domain is glued to the last one, and in another
spelling a domain is not removed. -/
theorem rules_run_ne :
    rules false (run Edit.step [.append "news.example".toList] openFile) ≠
        [.append "news.example".toList].foldl (Edit.effect false) (rules false openFile) ∧
      rules false (run Edit.step [.remove "ads.example".toList] handWritten) ≠
        [.remove "ads.example".toList].foldl (Edit.effect false) (rules false handWritten) := by
  have hnews : normalize "news.example".toList = some (.exact "news.example".toList) := by decide
  have hads : normalize "ads.example".toList = some (.exact "ads.example".toList) := by decide
  rw [List.foldl_cons, List.foldl_nil, Edit.effect_append hnews, List.foldl_cons, List.foldl_nil,
    Edit.effect_remove hads]
  constructor
  · intro heq
    have hnot : ⟨false, .exact "news.example".toList⟩ ∉ textRules false
        (run Edit.step [.append "news.example".toList] openFile).contents := by decide
    have hin : ⟨false, .exact "news.example".toList⟩ ∈
        rules false (run Edit.step [.append "news.example".toList] openFile) := by
      rw [heq]
      exact Set.mem_insert _ _
    exact hnot (hin)
  · intro heq
    have hin : ⟨false, .exact "ads.example".toList⟩ ∈ textRules false
        (run Edit.step [.remove "ads.example".toList] handWritten).contents := by decide
    have hmem : ⟨false, .exact "ads.example".toList⟩ ∈
        rules false (run Edit.step [.remove "ads.example".toList] handWritten) :=
      hin
    rw [heq] at hmem
    exact hmem.2 rfl

end Netwatch.Blocklist
