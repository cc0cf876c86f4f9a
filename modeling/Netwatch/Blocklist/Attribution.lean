import Netwatch.Blocklist.Rules

/-!
# What the matcher decides

A matcher is the result of a sequence of `ingest` calls. `lookup` is read off that sequence:
it blocks what some block rule covers and no allow rule does, and it names the source that
first contributed the decisive rule, as far as the table of source names can tell sources
apart.

## Main definitions

- `ingestAll` — the matcher after a sequence of calls
- `sourceTable` — the names that got a slot: the first 65535 distinct ones
- `label` — the name under which a source's rules are reported
- `Decisive` — the block rule a name is reported for
-/

namespace Netwatch.Blocklist

open RustStd

structure IngestCall where
  contents : Str
  sourceName : Str
  allow : Bool
  deriving DecidableEq

def IngestCall.rules (c : IngestCall) : List ListRule := textRules c.allow c.contents

def ingestCall (bl : Blocklist) (c : IngestCall) : Blocklist :=
  (bl.ingest c.contents c.sourceName c.allow).2

def ingestAll (calls : List IngestCall) : Blocklist := calls.foldl ingestCall {}

/-- Some call contributed the rule. -/
def Ingested (calls : List IngestCall) (r : ListRule) : Prop := ∃ c ∈ calls, r ∈ c.rules

def blockNames (calls : List IngestCall) : List Str :=
  (calls.filter fun c => !c.allow).map IngestCall.sourceName

def sourceTable (calls : List IngestCall) : List Str := (blockNames calls).eraseDups.take 65535

/-- A source without a slot of its own shares the last one. -/
def label (table : List Str) (name : Str) : Str :=
  if name ∈ table then name else table.getLastD "unknown".toList

/-- The exact rule if there is one, else the longest wildcard. -/
def Decisive (calls : List IngestCall) (d : Str) (e : Entry) : Prop :=
  Ingested calls ⟨false, e⟩ ∧ e.Covers d ∧
    (e = .exact d ∨ ¬ Ingested calls ⟨false, .exact d⟩ ∧
      ∀ e', Ingested calls ⟨false, e'⟩ → e'.Covers d → e'.domain.length ≤ e.domain.length)

/-! ### The source table -/

def names (bl : Blocklist) : List Str := bl.sources.map SourceStat.name

/-- The id `intern` settles on for `name` once the table is `table`. -/
def slot (table : List Str) (name : Str) : SourceId :=
  if name ∈ table then UInt16.ofNat (table.idxOf name) else 65534

/-- Later calls cannot change the slot: the name has one, or the table is full. -/
def Settled (table : List Str) (name : Str) : Prop := name ∈ table ∨ 65535 ≤ table.length

def extend (table : List Str) (name : Str) : List Str :=
  if name ∈ table ∨ 65535 ≤ table.length then table else table ++ [name]

theorem extend_of_mem {table : List Str} {name : Str} (h : name ∈ table) :
    extend table name = table := if_pos (.inl h)

theorem extend_of_full {table : List Str} (h : 65535 ≤ table.length) (name : Str) :
    extend table name = table := if_pos (.inr h)

theorem extend_of_new {table : List Str} {name : Str} (h : name ∉ table)
    (hroom : ¬ 65535 ≤ table.length) : extend table name = table ++ [name] :=
  if_neg fun hor => hor.elim h hroom

theorem settled_extend (table : List Str) (name : Str) : Settled (extend table name) name := by
  rw [extend]
  split
  · next h => exact h
  · exact .inl (by simp)

theorem Settled.extend {table : List Str} {name : Str} (h : Settled table name) (other : Str) :
    Settled (extend table other) name := by
  rw [Blocklist.extend]
  split
  · exact h
  · rcases h with h | h
    · exact .inl (List.mem_append_left _ h)
    · exact .inr (by rw [List.length_append]; omega)

theorem Settled.slot_extend {table : List Str} {name : Str} (h : Settled table name)
    (other : Str) : slot (Blocklist.extend table other) name = slot table name := by
  rw [Blocklist.extend]
  split
  · rfl
  · next hother =>
    rcases h with h | h
    · rw [slot, slot, if_pos h, if_pos (List.mem_append_left _ h), List.idxOf_append, if_pos h]
    · exact absurd (.inr h) hother

theorem findIdx?_name_eq (sources : List SourceStat) (name : Str) :
    sources.findIdx? (·.name == name) =
      if name ∈ sources.map SourceStat.name then
        some ((sources.map SourceStat.name).idxOf name) else none := by
  induction sources with
  | nil => rfl
  | cons s sources ih =>
    rw [List.findIdx?_cons, ih, List.map_cons, List.idxOf_cons]
    by_cases h : s.name = name
    · simp [h]
    · have hne : name ≠ s.name := fun h' => h h'.symm
      have hbeq : (s.name == name) = false := beq_false_of_ne h
      by_cases hmem : name ∈ sources.map SourceStat.name <;> simp [hbeq, hne, hmem]

theorem length_names (bl : Blocklist) : (names bl).length = bl.sources.length := by
  simp [names]

theorem intern_eq (bl : Blocklist) (name : Str) :
    bl.intern name =
      if name ∈ names bl then (UInt16.ofNat ((names bl).idxOf name), bl)
      else if 65535 ≤ (names bl).length then (65534, bl)
      else (UInt16.ofNat (names bl).length,
        { bl with sources := bl.sources ++ [⟨name, 0⟩] }) := by
  rw [intern, findIdx?_name_eq, length_names]
  by_cases hmem : name ∈ bl.sources.map SourceStat.name
  · rw [if_pos hmem, if_pos (show name ∈ names bl from hmem)]
    rfl
  · rw [if_neg hmem, if_neg (show name ∉ names bl from hmem)]

theorem intern_fst (bl : Blocklist) (name : Str) :
    (bl.intern name).1 = slot (extend (names bl) name) name := by
  rw [intern_eq]
  by_cases hmem : name ∈ names bl
  · rw [if_pos hmem, extend_of_mem hmem, slot, if_pos hmem]
  · rw [if_neg hmem]
    by_cases hfull : 65535 ≤ (names bl).length
    · rw [if_pos hfull, extend_of_full hfull, slot, if_neg hmem]
    · rw [if_neg hfull, extend_of_new hmem hfull, slot, if_pos (by simp), List.idxOf_append,
        if_neg hmem]
      simp

theorem names_intern (bl : Blocklist) (name : Str) :
    names (bl.intern name).2 = extend (names bl) name := by
  rw [intern_eq]
  by_cases hmem : name ∈ names bl
  · rw [if_pos hmem, extend_of_mem hmem]
  · rw [if_neg hmem]
    by_cases hfull : 65535 ≤ (names bl).length
    · rw [if_pos hfull, extend_of_full hfull]
    · rw [if_neg hfull, extend_of_new hmem hfull]
      simp [names]

/-- Interning touches the source table only. -/
theorem intern_snd (bl : Blocklist) (name : Str) :
    (bl.intern name).2 = { bl with sources := (bl.intern name).2.sources } := by
  rw [intern_eq]
  split
  · rfl
  · split <;> rfl

theorem mem_take_or_full {l : List Str} {name : Str} (h : name ∈ l) (n : ℕ) :
    name ∈ l.take n ∨ n ≤ (l.take n).length := by
  by_cases hn : l.length ≤ n
  · exact .inl (by rwa [List.take_of_length_le hn])
  · exact .inr (by rw [List.length_take]; omega)

theorem sourceTable_append_allow (calls : List IngestCall) {c : IngestCall}
    (h : c.allow = true) : sourceTable (calls ++ [c]) = sourceTable calls := by
  simp [sourceTable, blockNames, h]

theorem sourceTable_append_block (calls : List IngestCall) {c : IngestCall}
    (h : c.allow = false) :
    sourceTable (calls ++ [c]) = extend (sourceTable calls) c.sourceName := by
  have hnames : blockNames (calls ++ [c]) = blockNames calls ++ [c.sourceName] := by
    simp [blockNames, h]
  rw [sourceTable, sourceTable, hnames, List.eraseDups_append]
  by_cases hmem : c.sourceName ∈ blockNames calls
  · have hstay := mem_take_or_full (List.mem_eraseDups.mpr hmem) 65535
    rw [List.cons_removeAll, extend, if_pos hstay]
    simp [hmem]
  · have hnew : c.sourceName ∉ (blockNames calls).eraseDups.take 65535 := fun hin =>
      hmem (List.mem_eraseDups.mp (List.mem_of_mem_take hin))
    have hone : ([c.sourceName].removeAll (blockNames calls)).eraseDups = [c.sourceName] := by
      simp [List.cons_removeAll, hmem, List.eraseDups_cons]
    rw [hone]
    by_cases hfull : 65535 ≤ (blockNames calls).eraseDups.length
    · rw [extend_of_full (by rw [List.length_take]; omega), List.take_append_of_le_length hfull]
    · have hlt : (blockNames calls).eraseDups.length ≤ 65535 := by omega
      rw [List.take_of_length_le hlt] at hnew ⊢
      rw [extend_of_new hnew hfull, List.take_of_length_le]
      rw [List.length_append, List.length_singleton]
      omega

theorem length_sourceTable_le (calls : List IngestCall) : (sourceTable calls).length ≤ 65535 := by
  rw [sourceTable, List.length_take]
  omega

/-! ### One call -/

theorem ingestCall_of_allow (bl : Blocklist) {c : IngestCall} (h : c.allow = true) :
    ingestCall bl c = c.rules.foldl (addRule 0) bl := by
  simp only [ingestCall, ingest, h, if_true, Bool.not_true, Bool.false_eq_true, if_false]
  rw [foldl_ingestLine_eq, IngestCall.rules, h]

theorem len_intern (bl : Blocklist) (name : Str) : (bl.intern name).2.len = bl.len := by
  rw [intern_snd]
  rfl

/-- A block list interns its source first and adds to that source's entry count last. -/
theorem ingestCall_of_block (bl : Blocklist) {c : IngestCall} (h : c.allow = false) :
    ∃ added, bl.len + added =
        (c.rules.foldl (addRule (bl.intern c.sourceName).1) (bl.intern c.sourceName).2).len ∧
      ingestCall bl c =
      { c.rules.foldl (addRule (bl.intern c.sourceName).1) (bl.intern c.sourceName).2 with
        sources := (bl.intern c.sourceName).2.sources.modify (bl.intern c.sourceName).1.toNat
          fun stat => { stat with entries := stat.entries + added } } := by
  obtain ⟨added, hlen⟩ := Nat.le.dest (len_le_foldl_addRule (bl.intern c.sourceName).1 c.rules
    (bl.intern c.sourceName).2)
  rw [len_intern] at hlen
  refine ⟨added, hlen, ?_⟩
  simp only [ingestCall, ingest, h, Bool.not_false, if_true, Bool.false_eq_true, if_false]
  rw [foldl_ingestLine_eq, ← h, ← IngestCall.rules, ← hlen, sources_foldl_addRule,
    Nat.add_sub_cancel_left]

theorem map_name_modify (sources : List SourceStat) (i n : ℕ) :
    (sources.modify i fun stat => { stat with entries := stat.entries + n }).map
      SourceStat.name = sources.map SourceStat.name := by
  apply List.ext_getElem
  · simp
  · intro j h1 h2
    simp only [List.getElem_map, List.getElem_modify]
    split <;> rfl

theorem allow_of_mem_rules {c : IngestCall} {e : Entry} (h : ⟨false, e⟩ ∈ c.rules) :
    c.allow = false := by
  rw [← Bool.not_eq_true]
  intro hc
  rw [IngestCall.rules, hc] at h
  exact Bool.false_ne_true (allow_of_mem_textRules h)

theorem names_ingestCall (bl : Blocklist) (c : IngestCall) :
    names (ingestCall bl c) = if c.allow then names bl else extend (names bl) c.sourceName := by
  cases hc : c.allow with
  | true => simp [ingestCall_of_allow bl hc, names]
  | false =>
    obtain ⟨added, _, heq⟩ := ingestCall_of_block bl hc
    rw [heq, names, map_name_modify]
    exact names_intern bl c.sourceName

theorem blockId_ingestCall (bl : Blocklist) (c : IngestCall) (e : Entry) :
    (ingestCall bl c).blockId e =
      (bl.blockId e).or
        (if ⟨false, e⟩ ∈ c.rules then some (slot (names (ingestCall bl c)) c.sourceName)
          else none) := by
  cases hc : c.allow with
  | true =>
    have hnot : (⟨false, e⟩ : ListRule) ∉ c.rules := fun h => by
      rw [allow_of_mem_rules h] at hc
      exact Bool.false_ne_true hc
    rw [if_neg hnot, ingestCall_of_allow bl hc, blockId_foldl_addRule, if_neg hnot]
  | false =>
    have hkeep : (bl.intern c.sourceName).2.blockId e = bl.blockId e := by
      rw [intern_snd]
      cases e <;> rfl
    have hfold := blockId_foldl_addRule (bl.intern c.sourceName).1 c.rules
      (bl.intern c.sourceName).2 e
    have hslot : (bl.intern c.sourceName).1 = slot (names (ingestCall bl c)) c.sourceName := by
      rw [names_ingestCall, hc]
      exact intern_fst bl c.sourceName
    obtain ⟨added, _, heq⟩ := ingestCall_of_block bl hc
    rw [← hslot, ← hkeep, ← hfold, heq]
    cases e <;> rfl

theorem hasAllow_ingestCall (bl : Blocklist) (c : IngestCall) (e : Entry) :
    (ingestCall bl c).HasAllow e ↔ bl.HasAllow e ∨ ⟨true, e⟩ ∈ c.rules := by
  cases hc : c.allow with
  | true =>
    rw [ingestCall_of_allow bl hc]
    exact hasAllow_foldl_addRule _ _ _ _
  | false =>
    have hkeep : (bl.intern c.sourceName).2.HasAllow e ↔ bl.HasAllow e := by
      rw [intern_snd]
      cases e <;> exact Iff.rfl
    obtain ⟨added, _, heq⟩ := ingestCall_of_block bl hc
    rw [← hkeep, ← hasAllow_foldl_addRule (bl.intern c.sourceName).1, heq]
    cases e <;> exact Iff.rfl

/-! ### A sequence of calls -/

/-- What a matcher holds after `calls`. -/
structure Reflects (calls : List IngestCall) (bl : Blocklist) : Prop where
  names_eq : names bl = sourceTable calls
  blockId_eq : ∀ e, bl.blockId e =
    (calls.find? fun c => ⟨false, e⟩ ∈ c.rules).map fun c => slot (sourceTable calls) c.sourceName
  hasAllow_iff : ∀ e, bl.HasAllow e ↔ Ingested calls ⟨true, e⟩
  settled : ∀ c ∈ calls, c.allow = false → Settled (sourceTable calls) c.sourceName

theorem sourceTable_append (calls : List IngestCall) (c : IngestCall) :
    sourceTable (calls ++ [c]) =
      if c.allow then sourceTable calls else extend (sourceTable calls) c.sourceName := by
  cases hc : c.allow with
  | true => exact sourceTable_append_allow calls hc
  | false => exact sourceTable_append_block calls hc

theorem Settled.append {calls : List IngestCall} {name : Str}
    (h : Settled (sourceTable calls) name) (c : IngestCall) :
    Settled (sourceTable (calls ++ [c])) name ∧
      slot (sourceTable (calls ++ [c])) name = slot (sourceTable calls) name := by
  rw [sourceTable_append]
  split
  · exact ⟨h, rfl⟩
  · exact ⟨h.extend _, h.slot_extend _⟩

theorem reflects_nil : Reflects [] {} where
  names_eq := rfl
  blockId_eq e := by cases e <;> rfl
  hasAllow_iff e := by cases e <;> simp [HasAllow, Ingested]
  settled := by simp

theorem Reflects.step {calls : List IngestCall} {bl : Blocklist} (h : Reflects calls bl)
    (c : IngestCall) : Reflects (calls ++ [c]) (ingestCall bl c) := by
  have hnames : names (ingestCall bl c) = sourceTable (calls ++ [c]) := by
    rw [names_ingestCall, sourceTable_append, h.names_eq]
  refine ⟨hnames, fun e => ?_, fun e => ?_, fun c' hc' hblock => ?_⟩
  · rw [blockId_ingestCall, hnames, h.blockId_eq, List.find?_append]
    cases hfind : calls.find? fun c => ⟨false, e⟩ ∈ c.rules with
    | some c₀ =>
      -- an earlier call contributed the entry: its source keeps its slot
      have hmem := List.mem_of_find?_eq_some hfind
      have hrule := List.find?_some hfind
      have hset := h.settled c₀ hmem (allow_of_mem_rules (of_decide_eq_true hrule))
      simp [(hset.append c).2]
    | none => by_cases hin : ⟨false, e⟩ ∈ c.rules <;> simp [hin]
  · rw [hasAllow_ingestCall, h.hasAllow_iff]
    simp [Ingested, or_and_right, exists_or]
  · rcases List.mem_append.mp hc' with hold | hnew
    · exact ((h.settled c' hold hblock).append c).1
    · rw [List.mem_singleton] at hnew
      subst hnew
      rw [sourceTable_append_block calls hblock]
      exact settled_extend _ _

theorem reflects_ingestAll (calls : List IngestCall) : Reflects calls (ingestAll calls) := by
  induction calls using List.reverseRecOn with
  | nil => exact reflects_nil
  | append_singleton calls c ih =>
    rw [ingestAll, List.foldl_append]
    exact ih.step c

theorem sourceName_eq (bl : Blocklist) (id : SourceId) :
    bl.sourceName id = ((names bl)[id.toNat]?).getD "unknown".toList := by
  rw [sourceName, names, List.getElem?_map]
  cases bl.sources[id.toNat]? <;> rfl

theorem sourceName_slot {bl : Blocklist} {name : Str} (hlen : (names bl).length ≤ 65535)
    (h : Settled (names bl) name) :
    bl.sourceName (slot (names bl) name) = label (names bl) name := by
  rw [sourceName_eq, slot, label]
  by_cases hmem : name ∈ names bl
  · have hlt := List.idxOf_lt_length_iff.mpr hmem
    have hidx : (UInt16.ofNat ((names bl).idxOf name)).toNat = (names bl).idxOf name := by
      rw [UInt16.toNat_ofNat']
      exact Nat.mod_eq_of_lt (by omega)
    rw [if_pos hmem, if_pos hmem, hidx, List.getElem?_eq_getElem hlt, Option.getD_some]
    exact List.getElem_idxOf hlt
  · rcases h with h | h
    · exact absurd h hmem
    · have hfull : (names bl).length = 65535 := by omega
      rw [if_neg hmem, if_neg hmem, List.getLastD_eq_getLast?, List.getLast?_eq_getElem?, hfull]
      rfl

theorem wildcard_nil_not_ingested (calls : List IngestCall) (allow : Bool) :
    ¬ Ingested calls ⟨allow, .wildcard []⟩ := by
  rintro ⟨c, _, h⟩
  exact entry_domain_ne_nil_of_mem_textRules h rfl

theorem Reflects.blockId_isSome_iff {calls : List IngestCall} {bl : Blocklist}
    (h : Reflects calls bl) (e : Entry) :
    (bl.blockId e).isSome = true ↔ Ingested calls ⟨false, e⟩ := by
  rw [h.blockId_eq, Option.isSome_map, List.find?_isSome]
  simp [Ingested]

theorem Reflects.isAllowed_iff {calls : List IngestCall} {bl : Blocklist}
    (h : Reflects calls bl) (d : Str) :
    bl.isAllowed d = true ↔ ∃ e, Ingested calls ⟨true, e⟩ ∧ e.Covers d := by
  have hnil : ¬ bl.HasAllow (.wildcard []) := fun hin =>
    wildcard_nil_not_ingested calls true ((h.hasAllow_iff _).mp hin)
  rw [Blocklist.isAllowed_iff hnil]
  simp only [h.hasAllow_iff, covers_iff_mem_candidates]
  exact exists_congr fun e => and_comm

theorem Reflects.lookup_eq {calls : List IngestCall} {bl : Blocklist}
    (h : Reflects calls bl) (d : Str) :
    bl.lookup d = if bl.isAllowed d then none
      else ((candidates d).findSome? bl.blockId).map bl.sourceName := by
  apply Blocklist.lookup_eq
  rw [← Option.not_isSome_iff_eq_none, h.blockId_isSome_iff]
  exact wildcard_nil_not_ingested calls false

/-- Candidates that come later are no longer, apart from the exact one at the head. -/
theorem decisive_of_first {calls : List IngestCall} {d : Str} {e : Entry} {l₁ l₂ : List Entry}
    (hsplit : candidates d = l₁ ++ e :: l₂) (hin : Ingested calls ⟨false, e⟩)
    (hfirst : ∀ e' ∈ l₁, ¬ Ingested calls ⟨false, e'⟩) : Decisive calls d e := by
  refine ⟨hin, covers_iff_mem_candidates.mpr (by simp [hsplit]), ?_⟩
  cases l₁ with
  | nil =>
    left
    simpa using (List.cons.inj hsplit).1.symm
  | cons e₀ l₁ =>
    right
    obtain ⟨he₀, hrest⟩ := List.cons.inj hsplit
    refine ⟨fun h => hfirst e₀ (by simp) (he₀ ▸ h), fun e' hin' hcov => ?_⟩
    have hsorted : ((d :: Str.suffixesAfter '.' d).map Entry.wildcard).Pairwise
        fun a b => b.domain.length < a.domain.length := by
      rw [List.pairwise_map]
      exact List.Pairwise.cons (fun t ht => Str.length_lt_of_mem_suffixesAfter ht)
        (Str.pairwise_suffixesAfter '.' d)
    rw [hrest, List.append_eq, List.pairwise_append, List.pairwise_cons] at hsorted
    rw [covers_iff_mem_candidates, hsplit] at hcov
    rcases List.mem_append.mp hcov with hbefore | hafter
    · exact absurd hin' (hfirst e' hbefore)
    · rcases List.mem_cons.mp hafter with rfl | htail
      · exact le_rfl
      · exact (hsorted.2.1.1 e' htail).le

theorem isSome_lookup_iff (calls : List IngestCall) (d : Str) :
    ((ingestAll calls).lookup d).isSome = true ↔
      (∃ e, Ingested calls ⟨false, e⟩ ∧ e.Covers d) ∧
        ¬ ∃ e, Ingested calls ⟨true, e⟩ ∧ e.Covers d := by
  have h := reflects_ingestAll calls
  rw [h.lookup_eq]
  by_cases hallow : (ingestAll calls).isAllowed d = true
  · have hex := (h.isAllowed_iff d).mp hallow
    rw [if_pos hallow]
    simp [hex]
  · have hno : ¬ ∃ e, Ingested calls ⟨true, e⟩ ∧ e.Covers d := fun hex =>
      hallow ((h.isAllowed_iff d).mpr hex)
    rw [if_neg hallow, and_iff_left hno, Option.isSome_map, List.findSome?_isSome_iff]
    simp only [h.blockId_isSome_iff, covers_iff_mem_candidates]
    exact exists_congr fun e => and_comm

theorem decisive_of_lookup {calls : List IngestCall} {d name : Str}
    (hname : (ingestAll calls).lookup d = some name) :
    ∃ e c, Decisive calls d e ∧ (calls.find? fun c => ⟨false, e⟩ ∈ c.rules) = some c ∧
      name = label (sourceTable calls) c.sourceName := by
  have h := reflects_ingestAll calls
  rw [h.lookup_eq] at hname
  split at hname
  · cases hname
  · obtain ⟨id, hid, rfl⟩ := Option.map_eq_some_iff.mp hname
    obtain ⟨l₁, e, l₂, hsplit, he, hfirst⟩ := List.findSome?_eq_some_iff.mp hid
    have hin := (h.blockId_isSome_iff e).mp (by simp [he])
    have hbefore : ∀ e' ∈ l₁, ¬ Ingested calls ⟨false, e'⟩ := by
      intro e' he' hin'
      have hsome := (h.blockId_isSome_iff e').mpr hin'
      rw [hfirst e' he'] at hsome
      exact Bool.false_ne_true hsome
    rw [h.blockId_eq] at he
    obtain ⟨c, hc, rfl⟩ := Option.map_eq_some_iff.mp he
    have hrule := List.find?_some hc
    have hblock := allow_of_mem_rules (of_decide_eq_true hrule)
    have hset := h.settled c (List.mem_of_find?_eq_some hc) hblock
    refine ⟨e, c, decisive_of_first hsplit hin hbefore, hc, ?_⟩
    rw [← h.names_eq] at hset ⊢
    exact sourceName_slot (by rw [h.names_eq]; exact length_sourceTable_le calls) hset

/-- An exact rule decides whatever else covers the name. -/
theorem lookup_of_exact {calls : List IngestCall} {d : Str} {c : IngestCall}
    (hc : (calls.find? fun c => ⟨false, .exact d⟩ ∈ c.rules) = some c)
    (hallow : ¬ ∃ e, Ingested calls ⟨true, e⟩ ∧ e.Covers d) :
    (ingestAll calls).lookup d = some (label (sourceTable calls) c.sourceName) ∧
      Decisive calls d (.exact d) := by
  have hrule := List.find?_some hc
  have hin : Ingested calls ⟨false, .exact d⟩ :=
    ⟨c, List.mem_of_find?_eq_some hc, of_decide_eq_true hrule⟩
  have hsome := (isSome_lookup_iff calls d).mpr ⟨⟨.exact d, hin, rfl⟩, hallow⟩
  obtain ⟨name, hname⟩ := Option.isSome_iff_exists.mp hsome
  obtain ⟨e, c', hdec, hc', rfl⟩ := decisive_of_lookup hname
  have he : e = .exact d := hdec.2.2.elim id fun h => absurd hin h.1
  subst he
  have hsame : c' = c := Option.some.inj (hc'.symm.trans hc)
  exact ⟨hsame ▸ hname, hdec⟩

/-- `lookup` blocks a name exactly when a block rule covers it and no allow rule does, and
reports it under the label of the source that first contributed the decisive rule. -/
theorem lookup_correct (calls : List IngestCall) (d : Str) :
    (((ingestAll calls).lookup d).isSome = true ↔
      (∃ e, Ingested calls ⟨false, e⟩ ∧ e.Covers d) ∧
        ¬ ∃ e, Ingested calls ⟨true, e⟩ ∧ e.Covers d) ∧
    (∀ name, (ingestAll calls).lookup d = some name →
      ∃ e c, Decisive calls d e ∧
        (calls.find? fun c => ⟨false, e⟩ ∈ c.rules) = some c ∧
        name = label (sourceTable calls) c.sourceName) ∧
    ∀ text e, ⟨false, e⟩ ∈ textRules false text → ⟨true, e⟩ ∈ textRules true text :=
  ⟨isSome_lookup_iff calls d, fun _ hname => decisive_of_lookup hname,
    fun _ _ h => allow_mem_textRules_of_block h⟩

/-! ### More sources than slots -/

def adsName : Str := "ads.example.com".toList

def lateList : IngestCall := ⟨adsName, "late".toList, false⟩

/-- 65535 empty lists fill the table, and one more list comes after them. -/
def crowdedTable : List IngestCall :=
  (List.range 65535).map (fun i => ⟨[], List.replicate i 'a', false⟩) ++ [lateList]

theorem eraseDups_of_nodup {l : List Str} (h : l.Nodup) : l.eraseDups = l := by
  induction l with
  | nil => rfl
  | cons a l ih =>
    obtain ⟨ha, hl⟩ := List.nodup_cons.mp h
    have hfilter : (l.filter fun b => !b == a) = l := by
      rw [List.filter_eq_self]
      intro b hb
      simp [ne_of_mem_of_not_mem hb ha]
    rw [List.eraseDups_cons, hfilter, ih hl]

theorem replicate_ne_late (i : ℕ) : List.replicate i 'a' ≠ lateList.sourceName := by
  intro h
  have hl : 'l' ∈ List.replicate i 'a' := h ▸ by decide
  exact absurd (List.eq_of_mem_replicate hl) (by decide)

theorem label_late (n : ℕ) :
    label ((List.range (n + 1)).map fun i => List.replicate i 'a') lateList.sourceName =
      List.replicate n 'a' := by
  have hout : lateList.sourceName ∉ (List.range (n + 1)).map fun i => List.replicate i 'a' := by
    intro hmem
    obtain ⟨i, _, hi⟩ := List.mem_map.mp hmem
    exact replicate_ne_late i hi
  rw [label, if_neg hout, List.range_succ, List.map_append, List.map_singleton,
    List.getLastD_concat]

theorem sourceTable_crowdedTable :
    sourceTable crowdedTable = (List.range 65535).map fun i => List.replicate i 'a' := by
  have hnames : blockNames crowdedTable =
      (List.range 65535).map (fun i => List.replicate i 'a') ++ ["late".toList] := by
    simp [blockNames, crowdedTable, lateList, List.filter_map, Function.comp_def]
  have hnodup : (blockNames crowdedTable).Nodup := by
    rw [hnames, List.nodup_append]
    refine ⟨List.Nodup.map (fun i j hij => ?_) List.nodup_range, by simp, ?_⟩
    · simpa using congrArg List.length hij
    · intro a ha b hb hab
      obtain ⟨i, _, rfl⟩ := List.mem_map.mp ha
      rw [List.mem_singleton.mp hb] at hab
      exact replicate_ne_late i hab
  rw [sourceTable, eraseDups_of_nodup hnodup, hnames, List.take_left' (by simp)]

theorem find?_crowdedTable (e : Entry) (h : ⟨false, e⟩ ∈ lateList.rules) :
    (crowdedTable.find? fun c => ⟨false, e⟩ ∈ c.rules) = some lateList := by
  rw [crowdedTable, List.find?_append, List.find?_eq_none.mpr]
  · simp [h]
  · intro c hc
    obtain ⟨i, _, rfl⟩ := List.mem_map.mp hc
    simp [IngestCall.rules, textRules, Str.lines, Str.splitInclusive]

/-- The rule of the late list is reported under the name of the last list with a slot. -/
theorem lookup_crowdedTable :
    (ingestAll crowdedTable).lookup adsName = some (List.replicate 65534 'a') ∧
    Decisive crowdedTable adsName (.exact adsName) ∧
    (crowdedTable.find? fun c => ⟨false, .exact adsName⟩ ∈ c.rules) = some lateList ∧
    List.replicate 65534 'a' ≠ lateList.sourceName := by
  have hrule : (⟨false, .exact adsName⟩ : ListRule) ∈ lateList.rules := by decide
  have hallow : ¬ ∃ e, Ingested crowdedTable ⟨true, e⟩ ∧ e.Covers adsName := by
    rintro ⟨e, ⟨c, hc, he⟩, _⟩
    rcases List.mem_append.mp hc with hfill | hlate
    · obtain ⟨i, _, rfl⟩ := List.mem_map.mp hfill
      simp [IngestCall.rules, textRules, Str.lines, Str.splitInclusive] at he
    · have hrules : lateList.rules = [⟨false, .exact adsName⟩] := by decide
      rw [List.mem_singleton.mp hlate, hrules] at he
      simp at he
  obtain ⟨hlookup, hdec⟩ := lookup_of_exact (find?_crowdedTable _ hrule) hallow
  have hlabel := label_late 65534
  rw [← sourceTable_crowdedTable] at hlabel
  rw [hlabel] at hlookup
  exact ⟨hlookup, hdec, find?_crowdedTable _ hrule, replicate_ne_late 65534⟩

end Netwatch.Blocklist
