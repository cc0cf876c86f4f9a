import Netwatch.Blocklist.Attribution
import Netwatch.RustStd.Lines
import Mathlib.Data.Finset.Card

/-!
# The order of lists

Lists may be ingested in any order, more than once, and block lists in pieces. What a matcher
decides does not depend on it: only the attribution does.

## Main definitions

- `keySets` — the four rule sets of a matcher
- `Split` — an input as it is, or a block list cut at ends of lines
- `Presents` — calls that ingest every input of a collection at least once

## Main results

- `Presents.ingested_iff` — a rule is contributed exactly if an input has it
- `order_affects_attribution_only` — two such sequences of calls decide alike
-/

namespace Netwatch.Blocklist

open RustStd

structure KeySets where
  exact : Finset Str
  wildcards : Finset Str
  allow : Finset Str
  allowWildcards : Finset Str
  deriving DecidableEq

def keySets (bl : Blocklist) : KeySets where
  exact := bl.exact.keys.toFinset
  wildcards := bl.wildcards.keys.toFinset
  allow := bl.allow
  allowWildcards := bl.allowWildcards

/-- `c` as it is or, if it is a block list, cut at ends of lines. -/
inductive Split (c : IngestCall) : List IngestCall → Prop
  | whole : Split c [c]
  | cut (texts : List Str) (hblock : c.allow = false) (hjoin : texts.flatten = c.contents)
      (hends : ∀ t ∈ texts.dropLast, Str.Terminated t) :
      Split c (texts.map fun t => { c with contents := t })

/-- The calls ingest every input at least once, in any order. -/
def Presents (inputs calls : List IngestCall) : Prop :=
  ∃ parts : List (List IngestCall),
    (∀ ps ∈ parts, ∃ c ∈ inputs, Split c ps) ∧
    (∀ c ∈ inputs, ∃ ps ∈ parts, Split c ps) ∧
    calls.Perm parts.flatten

/-! ### Key sets -/

theorem isSome_lookup_iff_mem_keys (m : HashMap Str SourceId) (d : Str) :
    (m.lookup d).isSome = true ↔ d ∈ m.keys.toFinset := by
  rw [AList.lookup_isSome, List.mem_toFinset]
  rfl

theorem len_eq_card (bl : Blocklist) :
    bl.len = bl.keySets.exact.card + bl.keySets.wildcards.card := by
  have hcard : ∀ m : HashMap Str SourceId, m.keys.toFinset.card = m.len := by
    intro m
    rw [List.toFinset_card_of_nodup m.keys_nodup, HashMap.len, AList.keys, List.keys,
      List.length_map]
  rw [keySets, hcard, hcard, len]

theorem keySets_ext {bl bl' : Blocklist}
    (hblock : ∀ e, (bl.blockId e).isSome = true ↔ (bl'.blockId e).isSome = true)
    (hallow : ∀ e, bl.HasAllow e ↔ bl'.HasAllow e) : bl.keySets = bl'.keySets := by
  have hexact : bl.exact.keys.toFinset = bl'.exact.keys.toFinset := by
    ext d
    rw [← isSome_lookup_iff_mem_keys, ← isSome_lookup_iff_mem_keys]
    exact hblock (.exact d)
  have hwild : bl.wildcards.keys.toFinset = bl'.wildcards.keys.toFinset := by
    ext d
    rw [← isSome_lookup_iff_mem_keys, ← isSome_lookup_iff_mem_keys]
    exact hblock (.wildcard d)
  have hallow₁ : bl.allow = bl'.allow := by
    ext d
    exact hallow (.exact d)
  have hallow₂ : bl.allowWildcards = bl'.allowWildcards := by
    ext d
    exact hallow (.wildcard d)
  rw [keySets, keySets, hexact, hwild, hallow₁, hallow₂]

theorem keySets_eq_of_ingested_iff {a b : List IngestCall}
    (h : ∀ r, Ingested a r ↔ Ingested b r) :
    (ingestAll a).keySets = (ingestAll b).keySets := by
  have ha := reflects_ingestAll a
  have hb := reflects_ingestAll b
  apply keySets_ext
  · intro e
    rw [ha.blockId_isSome_iff, hb.blockId_isSome_iff]
    exact h _
  · intro e
    rw [ha.hasAllow_iff, hb.hasAllow_iff]
    exact h _

/-! ### Pieces of a list -/

theorem textRules_append {s : Str} (hs : Str.Terminated s) (allow : Bool) (t : Str) :
    textRules allow (s ++ t) = textRules allow s ++ textRules allow t := by
  rw [textRules, Str.lines, Str.splitInclusive_append hs, List.map_append, List.flatMap_append]
  rfl

theorem textRules_flatten (allow : Bool) {texts : List Str}
    (h : ∀ t ∈ texts.dropLast, Str.Terminated t) :
    textRules allow texts.flatten = texts.flatMap (textRules allow) := by
  induction texts with
  | nil => rfl
  | cons t texts ih =>
    cases texts with
    | nil => simp
    | cons u texts =>
      rw [List.dropLast_cons_cons] at h
      have ht : Str.Terminated t := h t List.mem_cons_self
      rw [List.flatten_cons, textRules_append ht, List.flatMap_cons,
        ih fun v hv => h v (List.mem_cons_of_mem t hv)]

theorem Split.mem_rules_iff {c : IngestCall} {ps : List IngestCall} (h : Split c ps)
    (r : ListRule) : r ∈ c.rules ↔ ∃ p ∈ ps, r ∈ p.rules := by
  cases h with
  | whole => simp
  | cut texts hblock hjoin hends =>
    rw [IngestCall.rules, ← hjoin, textRules_flatten c.allow hends, List.mem_flatMap]
    simp only [List.mem_map, exists_exists_and_eq_and]
    rfl

theorem Presents.ingested_iff {inputs calls : List IngestCall} (h : Presents inputs calls)
    (r : ListRule) : Ingested calls r ↔ Ingested inputs r := by
  obtain ⟨parts, hparts, hall, hperm⟩ := h
  constructor
  · rintro ⟨p, hp, hr⟩
    obtain ⟨ps, hps, hp⟩ := List.mem_flatten.mp (hperm.mem_iff.mp hp)
    obtain ⟨c, hc, hsplit⟩ := hparts ps hps
    exact ⟨c, hc, (hsplit.mem_rules_iff r).mpr ⟨p, hp, hr⟩⟩
  · rintro ⟨c, hc, hr⟩
    obtain ⟨ps, hps, hsplit⟩ := hall c hc
    obtain ⟨p, hp, hr⟩ := (hsplit.mem_rules_iff r).mp hr
    exact ⟨p, hperm.mem_iff.mpr (List.mem_flatten.mpr ⟨ps, hps, hp⟩), hr⟩

theorem presents_self (inputs : List IngestCall) : Presents inputs inputs := by
  refine ⟨inputs.map fun c => [c], fun ps hps => ?_, fun c hc => ?_, ?_⟩
  · obtain ⟨c, hc, rfl⟩ := List.mem_map.mp hps
    exact ⟨c, hc, .whole⟩
  · exact ⟨[c], List.mem_map.mpr ⟨c, hc, rfl⟩, .whole⟩
  · rw [← List.flatMap_def, List.flatMap_singleton']

theorem Presents.perm {inputs calls calls' : List IngestCall} (h : Presents inputs calls)
    (hperm : calls'.Perm calls) : Presents inputs calls' := by
  obtain ⟨parts, hparts, hall, hcalls⟩ := h
  exact ⟨parts, hparts, hall, hperm.trans hcalls⟩

theorem Presents.append {inputs calls : List IngestCall} (h : Presents inputs calls)
    {c : IngestCall} (hc : c ∈ inputs) {ps : List IngestCall} (hsplit : Split c ps) :
    Presents inputs (calls ++ ps) := by
  obtain ⟨parts, hparts, hall, hcalls⟩ := h
  refine ⟨parts ++ [ps], fun qs hqs => ?_, fun d hd => ?_, ?_⟩
  · rcases List.mem_append.mp hqs with hold | hnew
    · exact hparts qs hold
    · exact ⟨c, hc, List.mem_singleton.mp hnew ▸ hsplit⟩
  · obtain ⟨qs, hqs, hd⟩ := hall d hd
    exact ⟨qs, List.mem_append_left _ hqs, hd⟩
  · rw [List.flatten_append, List.flatten_singleton]
    exact hcalls.append_right ps

/-! ### Ingesting again -/

/-- `ingest` returns the growth of the side it counts. -/
theorem ingest_fst (bl : Blocklist) (c : IngestCall) :
    (bl.ingest c.contents c.sourceName c.allow).1 =
      if c.allow then
        (ingestCall bl c).allow.card + (ingestCall bl c).allowWildcards.card -
          (bl.allow.card + bl.allowWildcards.card)
      else (ingestCall bl c).len - bl.len := by
  obtain ⟨contents, name, allow⟩ := c
  cases allow <;> rfl

theorem ingest_of_keySets_eq {bl : Blocklist} {c : IngestCall}
    (h : (ingestCall bl c).keySets = bl.keySets) :
    (bl.ingest c.contents c.sourceName c.allow).1 = 0 := by
  have hallow : (ingestCall bl c).allow = bl.allow := congrArg KeySets.allow h
  have hwild : (ingestCall bl c).allowWildcards = bl.allowWildcards :=
    congrArg KeySets.allowWildcards h
  rw [ingest_fst, hallow, hwild, len_eq_card, len_eq_card bl, h, Nat.sub_self, Nat.sub_self,
    ite_self]

/-- Two sequences of calls that present the same inputs decide alike, and an input ingested
again adds nothing. -/
theorem order_affects_attribution_only {inputs a b : List IngestCall} (ha : Presents inputs a)
    (hb : Presents inputs b) :
    (∀ d, ((ingestAll a).lookup d).isSome = ((ingestAll b).lookup d).isSome) ∧
    (ingestAll a).keySets = (ingestAll b).keySets ∧
    (ingestAll a).len = (ingestAll b).len ∧
    ∀ c ∈ inputs, ((ingestAll a).ingest c.contents c.sourceName c.allow).1 = 0 ∧
      ((ingestAll a).ingest c.contents c.sourceName c.allow).2.keySets =
        (ingestAll a).keySets := by
  have hrules : ∀ r, Ingested a r ↔ Ingested b r := fun r =>
    (ha.ingested_iff r).trans (hb.ingested_iff r).symm
  have hkeys := keySets_eq_of_ingested_iff hrules
  refine ⟨fun d => ?_, hkeys, ?_, fun c hc => ?_⟩
  · rw [Bool.eq_iff_iff, isSome_lookup_iff, isSome_lookup_iff]
    simp only [hrules]
  · rw [len_eq_card, len_eq_card, hkeys]
  -- the rules of the input are there already
  · have hagain : (ingestCall (ingestAll a) c).keySets = (ingestAll a).keySets := by
      have hcall : ingestCall (ingestAll a) c = ingestAll (a ++ [c]) := by
        rw [ingestAll, ingestAll, List.foldl_append]
        rfl
      rw [hcall]
      apply keySets_eq_of_ingested_iff
      intro r
      constructor
      · rintro ⟨c', hc', hr⟩
        rcases List.mem_append.mp hc' with hold | hnew
        · exact ⟨c', hold, hr⟩
        · rw [List.mem_singleton] at hnew
          subst hnew
          exact (ha.ingested_iff r).mpr ⟨c', hc, hr⟩
      · rintro ⟨c', hc', hr⟩
        exact ⟨c', List.mem_append_left _ hc', hr⟩
    exact ⟨ingest_of_keySets_eq hagain, hagain⟩

/-! A block list with an exception, and an allow list. -/

def adsList : IngestCall :=
  ⟨"||ads.example^\n@@||ok.ads.example^\n".toList, "ads".toList, false⟩

def allowList : IngestCall := ⟨"shop.example".toList, "allow".toList, true⟩

def adsPieces : List Str := ["||ads.example^\n".toList, "@@||ok.ads.example^\n".toList]

/-- The allow list first, the block list whole and once more line by line. -/
theorem order_affects_attribution_only_ads :
    (ingestAll [adsList, allowList]).keySets =
      (ingestAll ([allowList, adsList] ++
        adsPieces.map fun t => { adsList with contents := t })).keySets := by
  have hends : ∀ t ∈ adsPieces.dropLast, Str.Terminated t :=
    List.forall_mem_singleton.mpr (.inr ⟨"||ads.example^".toList, rfl⟩)
  have hpieces : Presents [adsList, allowList] ([allowList, adsList] ++
      adsPieces.map fun t => { adsList with contents := t }) :=
    ((presents_self [adsList, allowList]).perm (List.Perm.swap _ _ _)).append
      List.mem_cons_self (.cut adsPieces rfl rfl hends)
  exact (order_affects_attribution_only (presents_self _) hpieces).2.1

end Netwatch.Blocklist
