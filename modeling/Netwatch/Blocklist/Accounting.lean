import Netwatch.Blocklist.Attribution

/-!
# Source accounting

The rule maps hold ids, the source table holds names and entry counts. The two are grown by
different operations of `ingest` and stay in step over every sequence of calls.

## Main definitions

- `keysOf` — how many keys of `exact` and `wildcards` carry an id
- `Accounted` — the invariant that ties the table to the maps

## Main results

- `Accounted.ingestCall` — one call keeps it
- `accounting_consistent` — what holds after every sequence of calls
-/

namespace Netwatch.Blocklist

open RustStd

/-- The keys of `exact` and `wildcards` whose stored id is `i`. -/
def keysOf (bl : Blocklist) (i : ℕ) : ℕ :=
  bl.exact.countValues (fun id => id.toNat = i) + bl.wildcards.countValues (fun id => id.toNat = i)

structure Accounted (bl : Blocklist) : Prop where
  names_nodup : (names bl).Nodup
  length_le : bl.sources.length ≤ 65535
  id_lt : ∀ e id, bl.blockId e = some id → id.toNat < bl.sources.length
  entries_eq : ∀ i stat, bl.sources[i]? = some stat → stat.entries = keysOf bl i

theorem keysOf_addRule (id : SourceId) (bl : Blocklist) (r : ListRule) (i : ℕ) :
    keysOf (addRule id bl r) i = keysOf bl i + if id.toNat = i then newKeys bl r else 0 := by
  obtain ⟨allow, entry⟩ := r
  cases allow <;> cases entry
  all_goals
    simp only [addRule, keysOf, newKeys, blockId, HashMap.countValues_orInsert,
      AList.lookup_eq_none]
    simp
  all_goals grind

/-- Whatever a call adds is counted under its own id. -/
theorem keysOf_foldl_addRule (id : SourceId) (rs : List ListRule) (bl : Blocklist)
    {added : ℕ} (h : bl.len + added = (rs.foldl (addRule id) bl).len) (i : ℕ) :
    keysOf (rs.foldl (addRule id) bl) i = keysOf bl i + if id.toNat = i then added else 0 := by
  induction rs generalizing bl added with
  | nil =>
    have hzero : added = 0 := by rw [List.foldl_nil] at h; omega
    simp [hzero]
  | cons r rs ih =>
    rw [List.foldl_cons] at h ⊢
    have hone := len_addRule id bl r
    have hrest := len_le_foldl_addRule id rs (addRule id bl r)
    have htail : (addRule id bl r).len + (added - newKeys bl r) =
        (rs.foldl (addRule id) (addRule id bl r)).len := by omega
    rw [ih (addRule id bl r) htail, keysOf_addRule]
    by_cases hi : id.toNat = i
    · simp only [if_pos hi]
      omega
    · simp only [if_neg hi, Nat.add_zero]

theorem keysOf_eq_zero {bl : Blocklist} (h : Accounted bl) : keysOf bl bl.sources.length = 0 := by
  have hexact : bl.exact.countValues (fun id => id.toNat = bl.sources.length) = 0 := by
    apply HashMap.countValues_eq_zero
    intro d id hid
    exact decide_eq_false (h.id_lt (.exact d) id hid).ne
  have hwild : bl.wildcards.countValues (fun id => id.toNat = bl.sources.length) = 0 := by
    apply HashMap.countValues_eq_zero
    intro d id hid
    exact decide_eq_false (h.id_lt (.wildcard d) id hid).ne
  rw [keysOf, hexact, hwild]

theorem Accounted.sum_keysOf {bl : Blocklist} (h : Accounted bl) :
    ∑ i ∈ Finset.range bl.sources.length, keysOf bl i = bl.len := by
  simp only [keysOf, Finset.sum_add_distrib]
  rw [HashMap.sum_countValues fun d id hid => h.id_lt (.exact d) id hid,
    HashMap.sum_countValues fun d id hid => h.id_lt (.wildcard d) id hid, len]

theorem Accounted.sum_entries {bl : Blocklist} (h : Accounted bl) :
    (bl.sources.map SourceStat.entries).sum = bl.len := by
  have hmap : bl.sources.map SourceStat.entries =
      (List.range bl.sources.length).map (keysOf bl) := by
    apply List.ext_getElem
    · simp
    · intro i h1 h2
      rw [List.length_map] at h1
      rw [List.getElem_map, List.getElem_map, List.getElem_range]
      exact h.entries_eq i _ (List.getElem?_eq_getElem h1)
  rw [hmap, ← h.sum_keysOf]
  rfl

/-! ### One call -/

theorem toNat_ofNat_of_lt {n : ℕ} (h : n < 65535) : (UInt16.ofNat n).toNat = n := by
  rw [UInt16.toNat_ofNat']
  exact Nat.mod_eq_of_lt (by omega)

/-- A new source owns no key yet. -/
theorem Accounted.push {bl : Blocklist} (h : Accounted bl) {name : Str} (hnew : name ∉ names bl)
    (hroom : bl.sources.length < 65535) :
    Accounted { bl with sources := bl.sources ++ [⟨name, 0⟩] } := by
  refine ⟨?_, ?_, fun e id hid => ?_, fun i stat hstat => ?_⟩
  · rw [names, List.map_append, List.map_singleton, ← List.concat_eq_append]
    exact h.names_nodup.concat hnew
  · rw [List.length_append, List.length_singleton]
    omega
  · have hold : bl.blockId e = some id := by cases e <;> exact hid
    have hlt := h.id_lt e id hold
    rw [List.length_append, List.length_singleton]
    omega
  · show stat.entries = keysOf bl i
    rw [List.getElem?_append] at hstat
    split at hstat
    · exact h.entries_eq i stat hstat
    · next hge =>
      have hi : i = bl.sources.length := by
        have hin := (List.getElem?_eq_some_iff.mp hstat).1
        rw [List.length_singleton] at hin
        omega
      subst hi
      rw [Nat.sub_self, List.getElem?_cons_zero] at hstat
      rw [keysOf_eq_zero h, ← Option.some.inj hstat]

/-- Interning gives an id of the table, also when the table is full. -/
theorem Accounted.intern {bl : Blocklist} (h : Accounted bl) (name : Str) :
    Accounted (bl.intern name).2 ∧
      (bl.intern name).1.toNat < (bl.intern name).2.sources.length := by
  have hlen := length_names bl
  have hle := h.length_le
  rw [intern_eq]
  by_cases hmem : name ∈ names bl
  · have hlt := List.idxOf_lt_length_iff.mpr hmem
    rw [if_pos hmem]
    refine ⟨h, ?_⟩
    rw [toNat_ofNat_of_lt (by omega), ← hlen]
    exact hlt
  · rw [if_neg hmem]
    by_cases hfull : 65535 ≤ (names bl).length
    · -- clamped: the id of the last slot
      rw [if_pos hfull]
      refine ⟨h, ?_⟩
      show 65534 < bl.sources.length
      omega
    · rw [if_neg hfull]
      refine ⟨h.push hmem (by omega), ?_⟩
      rw [toNat_ofNat_of_lt (by omega), List.length_append, List.length_singleton]
      omega

/-- An allow rule leaves the rule maps of the block side and the table alone. -/
theorem Accounted.addRule_of_allow {bl : Blocklist} (h : Accounted bl) (id : SourceId)
    {r : ListRule} (hr : r.allow = true) : Accounted (addRule id bl r) := by
  obtain ⟨allow, entry⟩ := r
  subst hr
  cases entry
  all_goals exact ⟨h.names_nodup, h.length_le,
    fun e id hid => h.id_lt e id (by cases e <;> exact hid), h.entries_eq⟩

theorem Accounted.ingestCall {bl : Blocklist} (h : Accounted bl) (c : IngestCall) :
    Accounted (ingestCall bl c) := by
  cases hc : c.allow with
  | true =>
    rw [ingestCall_of_allow bl hc]
    -- an allow list adds to no counter
    have hallow : ∀ r ∈ c.rules, r.allow = true := by
      intro r hr
      rw [IngestCall.rules, hc] at hr
      exact allow_of_mem_textRules hr
    refine List.foldlRecOn c.rules (addRule 0) h fun b hb r hr => ?_
    exact hb.addRule_of_allow 0 (hallow r hr)
  | false =>
    obtain ⟨hint, hid⟩ := h.intern c.sourceName
    obtain ⟨added, hadded, heq⟩ := ingestCall_of_block bl hc
    rw [← len_intern bl c.sourceName] at hadded
    rw [heq]
    generalize (bl.intern c.sourceName).1 = id at hadded hid ⊢
    generalize (bl.intern c.sourceName).2 = bl' at hadded hint hid ⊢
    refine ⟨?_, ?_, fun e id' hid' => ?_, fun i stat hstat => ?_⟩
    · rw [names, map_name_modify]
      exact hint.names_nodup
    · rw [List.length_modify]
      exact hint.length_le
    · rw [List.length_modify]
      have hfold : ((c.rules.foldl (addRule id) bl').blockId e) = some id' := by
        cases e <;> exact hid'
      rw [blockId_foldl_addRule, Option.or_eq_some_iff] at hfold
      rcases hfold with hold | ⟨_, hnew⟩
      · exact hint.id_lt e id' hold
      · split at hnew
        · exact Option.some.inj hnew ▸ hid
        · cases hnew
    · show stat.entries = keysOf (c.rules.foldl (addRule id) bl') i
      rw [keysOf_foldl_addRule id c.rules bl' hadded]
      rw [List.getElem?_modify] at hstat
      obtain ⟨old, hold, rfl⟩ := Option.map_eq_some_iff.mp hstat
      have hkeys := hint.entries_eq i old hold
      -- only the counter of this list has moved
      by_cases hi : id.toNat = i
      · rw [if_pos hi, if_pos hi, ← hkeys]
      · rw [if_neg hi, if_neg hi, ← hkeys]
        rfl

/-! ### Every sequence of calls -/

theorem accounted_empty : Accounted {} where
  names_nodup := List.nodup_nil
  length_le := Nat.zero_le _
  id_lt e id h := by cases e <;> cases h
  entries_eq i stat h := by cases h

theorem accounted_ingestAll (calls : List IngestCall) : Accounted (ingestAll calls) :=
  List.foldlRecOn calls ingestCall accounted_empty fun _ hb c _ => hb.ingestCall c

theorem blockId_foldl_ingestCall {bl : Blocklist} {e : Entry} {id : SourceId}
    (h : bl.blockId e = some id) (calls : List IngestCall) :
    (calls.foldl ingestCall bl).blockId e = some id := by
  refine List.foldlRecOn (motive := fun b => b.blockId e = some id) calls ingestCall h ?_
  intro b hb c _
  rw [blockId_ingestCall, hb, Option.some_or]

/-- With fewer sources than slots, every source has a slot of its own. -/
theorem mem_sourceTable {calls : List IngestCall}
    (h : (blockNames calls).toFinset.card < 65535) {c : IngestCall} (hc : c ∈ calls)
    (hblock : c.allow = false) : c.sourceName ∈ sourceTable calls := by
  have hmem : c.sourceName ∈ (blockNames calls).eraseDups := by
    rw [List.mem_eraseDups, blockNames, List.mem_map]
    exact ⟨c, by simp [hc, hblock], rfl⟩
  rcases mem_take_or_full hmem 65535 with hin | hfull
  · exact hin
  · -- a full table holds 65535 different names
    have hnodup : (sourceTable calls).Nodup :=
      (reflects_ingestAll calls).names_eq ▸ (accounted_ingestAll calls).names_nodup
    have hsub : (sourceTable calls).toFinset ⊆ (blockNames calls).toFinset := by
      intro name hname
      rw [List.mem_toFinset] at hname ⊢
      exact List.mem_eraseDups.mp (List.mem_of_mem_take hname)
    have hcard := Finset.card_le_card hsub
    rw [List.toFinset_card_of_nodup hnodup, sourceTable] at hcard
    omega

theorem name_of_first {calls : List IngestCall}
    (h : (blockNames calls).toFinset.card < 65535) {e : Entry} {id : SourceId}
    (hid : (ingestAll calls).blockId e = some id) :
    ∃ c, (calls.find? fun c => ⟨false, e⟩ ∈ c.rules) = some c ∧
      (names (ingestAll calls))[id.toNat]? = some c.sourceName := by
  have href := reflects_ingestAll calls
  rw [href.blockId_eq] at hid
  obtain ⟨c, hc, rfl⟩ := Option.map_eq_some_iff.mp hid
  have hrule := List.find?_some hc
  have hmem := mem_sourceTable h (List.mem_of_find?_eq_some hc)
    (allow_of_mem_rules (of_decide_eq_true hrule))
  have hlt := List.idxOf_lt_length_iff.mpr hmem
  have hle := length_sourceTable_le calls
  refine ⟨c, hc, ?_⟩
  rw [href.names_eq, slot, if_pos hmem, toNat_ofNat_of_lt (by omega),
    List.getElem?_eq_getElem hlt, List.getElem_idxOf hlt]

/-- The source table and the rule maps agree after every sequence of `ingest` calls. -/
theorem accounting_consistent (calls : List IngestCall) :
    (names (ingestAll calls)).Nodup ∧
    (∀ e id, (ingestAll calls).blockId e = some id →
      id.toNat < (ingestAll calls).sources.length) ∧
    (∀ i stat, (ingestAll calls).sources[i]? = some stat →
      stat.entries = keysOf (ingestAll calls) i) ∧
    ((ingestAll calls).sources.map SourceStat.entries).sum = (ingestAll calls).len ∧
    (∀ later e id, (ingestAll calls).blockId e = some id →
      (ingestAll (calls ++ later)).blockId e = some id) ∧
    ((blockNames calls).toFinset.card < 65535 →
      ∀ e id, (ingestAll calls).blockId e = some id →
        ∃ c, (calls.find? fun c => ⟨false, e⟩ ∈ c.rules) = some c ∧
          (names (ingestAll calls))[id.toNat]? = some c.sourceName) := by
  have hacc := accounted_ingestAll calls
  refine ⟨hacc.names_nodup, hacc.id_lt, hacc.entries_eq, hacc.sum_entries,
    fun later e id hid => ?_, fun hfew e id hid => name_of_first hfew hid⟩
  rw [ingestAll, List.foldl_append]
  exact blockId_foldl_ingestCall hid later

end Netwatch.Blocklist
