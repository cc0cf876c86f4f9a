import Netwatch.Blocklist.Matcher

/-!
# Lists as sequences of rules

A list file is read here as the sequence of rules its lines stand for. `ingest` folds that
sequence into the matcher, and `lookup` asks for the first rule of a fixed sequence of
candidates, so both can be described without their loops.

## Main definitions

- `lineRules`, `textRules` — the rules a line, a whole text, stands for
- `Entry.Covers` — which names a rule is about
- `candidates` — the entries that cover a name, in the order `lookup` tries them
-/

namespace Netwatch.Blocklist

open RustStd

/-- A block rule or an allow rule of a list. -/
structure ListRule where
  allow : Bool
  entry : Entry
  deriving DecidableEq

/-- An exact rule is about its own name only, a wildcard rule also about every name below. -/
def Entry.Covers (d : Str) : Entry → Prop
  | .exact e => d = e
  | .wildcard w => d = w ∨ ∃ p, d = p ++ '.' :: w

/-- The `add_allow` (`true`) and `add_block` (`false`) calls made for one line. -/
def lineEntries (allow : Bool) (raw : Str) : List (Bool × Str) :=
  let line := Str.trim (raw.takeWhile fun c => c ≠ '#' ∧ c ≠ '!')
  if line = [] then []
  else match parseAdblock line with
    | some (.block d) => [(allow, wildcardText d)]
    | some (.exception d) => [(true, wildcardText d)]
    | none =>
      match Str.splitWhitespace line with
      | [] => []
      | first :: fields =>
        if first ∈ hostsMarkers then (fields.filter (!isLocalName ·)).map fun d => (allow, d)
        else if fields = [] then [(allow, first)]
        else []

def entryRule (e : Bool × Str) : Option ListRule := (normalize e.2).map (ListRule.mk e.1)

def lineRules (allow : Bool) (raw : Str) : List ListRule :=
  (lineEntries allow raw).filterMap entryRule

def textRules (allow : Bool) (contents : Str) : List ListRule :=
  (Str.lines contents).flatMap (lineRules allow)

/-- The id stored for a block rule. -/
def blockId (bl : Blocklist) : Entry → Option SourceId
  | .exact d => bl.exact.lookup d
  | .wildcard d => bl.wildcards.lookup d

def HasAllow (bl : Blocklist) : Entry → Prop
  | .exact d => d ∈ bl.allow
  | .wildcard d => d ∈ bl.allowWildcards

instance (bl : Blocklist) (e : Entry) : Decidable (bl.HasAllow e) := by
  cases e <;> exact inferInstanceAs (Decidable (_ ∈ _))

def addRule (id : SourceId) (bl : Blocklist) (r : ListRule) : Blocklist :=
  match r.allow, r.entry with
  | true, .exact d => { bl with allow := insert d bl.allow }
  | true, .wildcard d => { bl with allowWildcards := insert d bl.allowWildcards }
  | false, .exact d => { bl with exact := bl.exact.orInsert d id }
  | false, .wildcard d => { bl with wildcards := bl.wildcards.orInsert d id }

def addEntry (id : SourceId) (bl : Blocklist) (e : Bool × Str) : Blocklist :=
  if e.1 then bl.addAllow e.2 else bl.addBlock e.2 id

@[simp] theorem addEntry_true (id : SourceId) (bl : Blocklist) (d : Str) :
    addEntry id bl (true, d) = bl.addAllow d := by
  rw [addEntry, if_pos rfl]

@[simp] theorem addEntry_false (id : SourceId) (bl : Blocklist) (d : Str) :
    addEntry id bl (false, d) = bl.addBlock d id := by
  rw [addEntry, if_neg Bool.false_ne_true]

theorem addEntry_eq (id : SourceId) (bl : Blocklist) (e : Bool × Str) :
    addEntry id bl e = ((entryRule e).map (addRule id bl)).getD bl := by
  obtain ⟨allow, text⟩ := e
  cases allow
  all_goals
    simp only [addEntry_true, addEntry_false, addAllow, addBlock, entryRule]
    cases normalize text with
    | none => rfl
    | some e => cases e <;> rfl

theorem ingestLine_eq_foldl_addEntry (bl : Blocklist) (id : SourceId) (allow : Bool)
    (raw : Str) :
    bl.ingestLine id allow raw = (lineEntries allow raw).foldl (addEntry id) bl := by
  simp only [ingestLine, lineEntries]
  generalize Str.trim (raw.takeWhile fun c => decide (c ≠ '#' ∧ c ≠ '!')) = line
  by_cases hline : line = []
  · simp [hline]
  rw [if_neg hline, if_neg hline]
  cases parseAdblock line with
  | some rule =>
    cases rule with
    | block d => cases allow <;> simp
    | exception d => simp
  | none =>
    cases Str.splitWhitespace line with
    | nil => rfl
    | cons first fields =>
      simp only
      by_cases hfirst : first ∈ hostsMarkers
      · -- hosts line: the skipped names are the ones the filter drops
        rw [if_pos hfirst, if_pos hfirst, List.foldl_map, List.foldl_filter]
        congr 1
        funext b d
        cases isLocalName d <;> cases allow <;> rfl
      · rw [if_neg hfirst, if_neg hfirst]
        by_cases hfields : fields = []
        · rw [if_pos hfields, if_pos hfields]
          cases allow <;> rfl
        · rw [if_neg hfields, if_neg hfields]
          rfl

theorem ingestLine_eq (bl : Blocklist) (id : SourceId) (allow : Bool) (raw : Str) :
    bl.ingestLine id allow raw = (lineRules allow raw).foldl (addRule id) bl := by
  rw [ingestLine_eq_foldl_addEntry, lineRules, List.foldl_filterMap]
  congr 1
  funext b e
  rw [addEntry_eq]
  cases entryRule e <;> rfl

theorem isWhitespace_not_comment (c : Char) (hc : Str.isWhitespace c = true) :
    decide (c ≠ '#' ∧ c ≠ '!') = true := by
  rw [decide_eq_true_eq]
  constructor
  all_goals
    rintro rfl
    exact absurd hc (by decide)

theorem lineRules_trim (allow : Bool) (raw : Str) :
    lineRules allow (Str.trim raw) = lineRules allow raw := by
  rw [lineRules, lineRules, lineEntries, lineEntries,
    Str.trim_takeWhile_trim isWhitespace_not_comment]

theorem foldl_ingestLine_eq (bl : Blocklist) (id : SourceId) (allow : Bool) (contents : Str) :
    (Str.lines contents).foldl (fun bl raw => bl.ingestLine id allow raw) bl =
      (textRules allow contents).foldl (addRule id) bl := by
  rw [textRules, List.foldl_flatMap]
  congr 1
  funext b raw
  exact ingestLine_eq b id allow raw

theorem blockId_addRule (id : SourceId) (bl : Blocklist) (r : ListRule) (e : Entry) :
    (addRule id bl r).blockId e =
      if r = ⟨false, e⟩ then some ((bl.blockId e).getD id) else bl.blockId e := by
  obtain ⟨allow, entry⟩ := r
  cases allow <;> cases entry <;> cases e
  all_goals simp only [addRule, blockId, HashMap.lookup_orInsert]
  all_goals simp
  all_goals grind

theorem hasAllow_addRule (id : SourceId) (bl : Blocklist) (r : ListRule) (e : Entry) :
    (addRule id bl r).HasAllow e ↔ r = ⟨true, e⟩ ∨ bl.HasAllow e := by
  obtain ⟨allow, entry⟩ := r
  cases allow <;> cases entry <;> cases e
  all_goals simp [addRule, HasAllow, eq_comm]

@[simp] theorem sources_addRule (id : SourceId) (bl : Blocklist) (r : ListRule) :
    (addRule id bl r).sources = bl.sources := by
  obtain ⟨allow, entry⟩ := r
  cases allow <;> cases entry <;> rfl

/-- The first id stored for an entry stays. -/
theorem blockId_foldl_addRule (id : SourceId) (rs : List ListRule) (bl : Blocklist)
    (e : Entry) :
    (rs.foldl (addRule id) bl).blockId e =
      (bl.blockId e).or (if ⟨false, e⟩ ∈ rs then some id else none) := by
  induction rs generalizing bl with
  | nil => simp
  | cons r rs ih =>
    rw [List.foldl_cons, ih, blockId_addRule]
    by_cases hr : r = ⟨false, e⟩
    · cases bl.blockId e <;> simp [hr]
    · have hne : (⟨false, e⟩ : ListRule) ≠ r := fun h => hr h.symm
      simp [hr, hne]

theorem hasAllow_foldl_addRule (id : SourceId) (rs : List ListRule) (bl : Blocklist)
    (e : Entry) :
    (rs.foldl (addRule id) bl).HasAllow e ↔ bl.HasAllow e ∨ ⟨true, e⟩ ∈ rs := by
  induction rs generalizing bl with
  | nil => simp
  | cons r rs ih =>
    rw [List.foldl_cons, ih, hasAllow_addRule, List.mem_cons, eq_comm]
    tauto

@[simp] theorem sources_foldl_addRule (id : SourceId) (rs : List ListRule) (bl : Blocklist) :
    (rs.foldl (addRule id) bl).sources = bl.sources := by
  induction rs generalizing bl with
  | nil => rfl
  | cons r rs ih => rw [List.foldl_cons, ih, sources_addRule]

/-- The keys a rule adds: one at most. -/
def newKeys (bl : Blocklist) (r : ListRule) : ℕ :=
  if r.allow = false ∧ bl.blockId r.entry = none then 1 else 0

theorem len_addRule (id : SourceId) (bl : Blocklist) (r : ListRule) :
    (addRule id bl r).len = bl.len + newKeys bl r := by
  obtain ⟨allow, entry⟩ := r
  cases allow <;> cases entry
  all_goals
    simp only [addRule, len, newKeys, blockId, HashMap.len_orInsert, AList.lookup_eq_none]
    simp
  all_goals grind

theorem len_le_foldl_addRule (id : SourceId) (rs : List ListRule) (bl : Blocklist) :
    bl.len ≤ (rs.foldl (addRule id) bl).len := by
  induction rs generalizing bl with
  | nil => exact le_rfl
  | cons r rs ih =>
    have hone := len_addRule id bl r
    have hrest := ih (addRule id bl r)
    rw [List.foldl_cons]
    omega

/-- An allow list contributes no block rule. -/
theorem allow_of_mem_textRules {contents : Str} {r : ListRule}
    (h : r ∈ textRules true contents) : r.allow = true := by
  simp only [textRules, lineRules, List.mem_flatMap, List.mem_filterMap] at h
  obtain ⟨raw, _, e, he, hr⟩ := h
  have hfst : e.1 = true := by
    simp only [lineEntries] at he
    repeat' split at he
    all_goals simp at he
    all_goals first | exact he ▸ rfl | (obtain ⟨_, _, rfl⟩ := he; rfl)
  simp only [entryRule, Option.map_eq_some_iff] at hr
  obtain ⟨_, _, rfl⟩ := hr
  exact hfst

theorem lineEntries_true (raw : Str) :
    lineEntries true raw = (lineEntries false raw).map fun e => (true, e.2) := by
  simp only [lineEntries]
  split
  · rfl
  · split
    · rfl
    · rfl
    · split
      · rfl
      · split
        · rw [List.map_map]
          rfl
        · split <;> rfl

/-- As an allow list, a text allows whatever it blocks as a block list. -/
theorem allow_mem_textRules_of_block {contents : Str} {e : Entry}
    (h : ⟨false, e⟩ ∈ textRules false contents) : ⟨true, e⟩ ∈ textRules true contents := by
  simp only [textRules, lineRules, List.mem_flatMap, List.mem_filterMap] at h ⊢
  obtain ⟨raw, hraw, entry, hentry, hrule⟩ := h
  obtain ⟨e', he', heq⟩ := Option.map_eq_some_iff.mp hrule
  have hsame : e' = e := congrArg ListRule.entry heq
  refine ⟨raw, hraw, (true, entry.2), ?_, by rw [entryRule, he', hsame]; rfl⟩
  rw [lineEntries_true]
  exact List.mem_map.mpr ⟨entry, hentry, rfl⟩

theorem entry_domain_ne_nil_of_mem_textRules {allow : Bool} {contents : Str} {r : ListRule}
    (h : r ∈ textRules allow contents) : r.entry.domain ≠ [] := by
  simp only [textRules, lineRules, List.mem_flatMap, List.mem_filterMap] at h
  obtain ⟨_, _, e, _, hr⟩ := h
  simp only [entryRule, Option.map_eq_some_iff] at hr
  obtain ⟨entry, hentry, rfl⟩ := hr
  exact domain_ne_nil_of_normalize hentry

/-- The entries that cover `d`, in the order `lookup` tries them: the exact one, then the
wildcards from the longest to the shortest. -/
def candidates (d : Str) : List Entry :=
  .exact d :: (d :: Str.suffixesAfter '.' d).map .wildcard

theorem covers_iff_mem_candidates {e : Entry} {d : Str} : e.Covers d ↔ e ∈ candidates d := by
  cases e with
  | exact x => simp [Entry.Covers, candidates, eq_comm]
  | wildcard w =>
    simp only [Entry.Covers, candidates, List.mem_cons, List.map_cons, reduceCtorEq,
      List.mem_map, Entry.wildcard.injEq, exists_eq_right, false_or]
    rw [Str.mem_suffixesAfter, eq_comm]

/-- The label walk finds the first suffix with a value. -/
theorem climb_eq_findSome? {α : Type} {get : Str → Option α} (h : get [] = none) (d : Str) :
    climb get d = (Str.suffixesAfter '.' d).findSome? get := by
  induction d with
  | nil => rfl
  | cons c rest ih =>
    rw [climb, Str.suffixesAfter]
    split
    · by_cases hrest : rest = []
      · subst hrest
        simp [Str.suffixesAfter, h]
      · rw [if_neg hrest, List.findSome?_cons, ih]
        cases get rest <;> rfl
    · exact ih

theorem isAllowed_iff {bl : Blocklist} (h : ¬ bl.HasAllow (.wildcard [])) (d : Str) :
    bl.isAllowed d = true ↔ ∃ e ∈ candidates d, bl.HasAllow e := by
  have hnil : [] ∉ bl.allowWildcards := h
  rw [isAllowed, climb_eq_findSome? (by simp [hnil]), candidates]
  by_cases h1 : d ∈ bl.allow
  · simp [h1, HasAllow]
  · by_cases h2 : d ∈ bl.allowWildcards
    · simp [h1, h2, HasAllow]
    · simp [h1, h2, HasAllow, List.findSome?_isSome_iff]

theorem lookup_eq {bl : Blocklist} (h : bl.blockId (.wildcard []) = none) (d : Str) :
    bl.lookup d = if bl.isAllowed d then none
      else ((candidates d).findSome? bl.blockId).map bl.sourceName := by
  have hnil : bl.wildcards.lookup [] = none := h
  rw [lookup, climb_eq_findSome? hnil, candidates, List.findSome?_cons, List.map_cons,
    List.findSome?_cons, List.findSome?_map]
  simp only [blockId]
  split
  · rfl
  · cases bl.exact.lookup d with
    | some src => rfl
    | none =>
      cases bl.wildcards.lookup d with
      | some src => rfl
      | none => rfl

end Netwatch.Blocklist
