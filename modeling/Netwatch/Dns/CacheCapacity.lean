import Netwatch.Dns.CacheTtl

/-!
# The capacity of the cache

`insert` makes room before it places an entry: what has expired goes, or else the tenth that
expires first.

## Main definitions

- `Cache.madeRoom` — the cache in which `insert` places its entry
- `Evicts` — what making room does
- `CapacityKept` — a bounded cache, and calls that lose no other live entry

## Main results

- `evict_evicts` — both modes of `evict`
- `Run.capacityKept` — in every reachable cache
-/

namespace Netwatch.Dns

open RustStd Hickory

/-- Exactly what has expired is gone; if nothing has, a tenth and one more entry, and none that
stays expires before one that goes. -/
structure Evicts (now : ℕ) (c c' : Cache) : Prop where
  expired : (∃ k e, c.map.lookup k = some e ∧ e.expires ≤ now) →
    ∀ k e, c'.map.lookup k = some e ↔ c.map.lookup k = some e ∧ now < e.expires
  kept : ∀ k e, c'.map.lookup k = some e → c.map.lookup k = some e
  shed : (∀ k e, c.map.lookup k = some e → now < e.expires) →
    c'.len + (c.len / 10 + 1) = c.len ∧
      ∀ k e k' e', c.map.lookup k = some e → c'.map.lookup k = none →
        c'.map.lookup k' = some e' → e.expires ≤ e'.expires

/-- What holds of a reachable cache and of every call on it. -/
structure CapacityKept (maxEntries : ℕ) (c : Cache) : Prop where
  size : c.len ≤ max maxEntries 1
  size_insert : ∀ key message evictNow now,
    (c.insert key message evictNow now).2.len ≤ max maxEntries 1
  declined : ∀ key message evictNow now, (c.insert key message evictNow now).1 = false →
    (c.insert key message evictNow now).2 = c
  stored : ∀ key message evictNow now, (c.insert key message evictNow now).1 = true →
    ∃ life, lifetime c.minTtl c.maxTtl message = some life ∧
      (c.insert key message evictNow now).2.map.lookup key = some (entryOf message life now)
  /-- Room is made in a full cache, and nothing else changes for the other keys. -/
  others : ∀ key message evictNow now, (c.insert key message evictNow now).1 = true →
    ∃ c', (if max maxEntries 1 ≤ c.len then Evicts evictNow c c' else c' = c) ∧
      ∀ k, k ≠ key → (c.insert key message evictNow now).2.map.lookup k = c'.map.lookup k
  get : ∀ key now k e, c.map.lookup k = some e → now < e.expires →
    (c.get key now).2.map.lookup k = some e
  sweep : ∀ now k e, c.map.lookup k = some e → now < e.expires →
    (c.sweep now).map.lookup k = some e

namespace Cache

def madeRoom (c : Cache) (now : ℕ) : Cache := if c.len ≥ c.maxEntries then c.evict now else c

/-! ### What has expired -/

theorem lookup_dropExpired {c : Cache} {now : ℕ} {k : Key} {e : Entry} :
    (c.dropExpired now).map.lookup k = some e ↔ c.map.lookup k = some e ∧ now < e.expires := by
  rw [dropExpired]
  dsimp only
  rw [HashMap.lookup_retain, Option.filter_eq_some_iff, decide_eq_true_iff]

theorem len_dropExpired_lt_iff {c : Cache} {now : ℕ} :
    (c.dropExpired now).len < c.len ↔ ∃ k e, c.map.lookup k = some e ∧ e.expires ≤ now := by
  rw [len, dropExpired, len, HashMap.len_retain_lt_iff]
  simp only [decide_eq_false_iff_not, not_lt, gt_iff_lt]

theorem dropExpired_eq_self {c : Cache} {now : ℕ}
    (h : ∀ k e, c.map.lookup k = some e → now < e.expires) : c.dropExpired now = c := by
  have hmap : HashMap.retain c.map (fun _ e => e.expires > now) = c.map :=
    HashMap.retain_eq_self fun e he =>
      decide_eq_true (h e.1 e.2 (AList.mem_lookup_iff.mpr he))
  rw [dropExpired, hmap]

theorem len_dropExpired_le (c : Cache) (now : ℕ) : (c.dropExpired now).len ≤ c.len :=
  HashMap.len_retain_le c.map _

/-! ### What expires first -/

theorem perm_byExpiry (c : Cache) :
    c.byExpiry.Perm (c.map.entries.map fun e => (e.1, e.2.expires)) :=
  List.mergeSort_perm _ _

theorem mem_byExpiry {c : Cache} {v : Key × ℕ} :
    v ∈ c.byExpiry ↔ ∃ e, c.map.lookup v.1 = some e ∧ e.expires = v.2 := by
  rw [(perm_byExpiry c).mem_iff, List.mem_map]
  constructor
  · rintro ⟨e, he, rfl⟩
    exact ⟨e.2, AList.mem_lookup_iff.mpr he, rfl⟩
  · rintro ⟨e, he, hexpires⟩
    exact ⟨⟨v.1, e⟩, AList.mem_lookup_iff.mp he, Prod.ext rfl hexpires⟩

theorem nodup_byExpiry (c : Cache) : (c.byExpiry.map Prod.fst).Nodup := by
  have hperm := (perm_byExpiry c).map Prod.fst
  rw [List.map_map] at hperm
  exact hperm.nodup_iff.mpr c.map.keys_nodup

theorem length_byExpiry (c : Cache) : c.byExpiry.length = c.len := by
  rw [(perm_byExpiry c).length_eq, List.length_map]
  rfl

theorem pairwise_byExpiry (c : Cache) : c.byExpiry.Pairwise fun v v' => v.2 ≤ v'.2 := by
  have hsorted : c.byExpiry.Pairwise fun v v' => decide (v.2 ≤ v'.2) = true := by
    refine List.pairwise_mergeSort (fun a b c hab hbc => ?_) (fun a b => ?_) _
    · simp only [decide_eq_true_eq] at hab hbc ⊢
      exact hab.trans hbc
    · simp only [Bool.or_eq_true, decide_eq_true_eq]
      exact le_total a.2 b.2
  exact hsorted.imp of_decide_eq_true

theorem lookup_shed (c : Cache) (target : ℕ) (k : Key) :
    (c.shed target).map.lookup k =
      if k ∈ (c.byExpiry.take target).map Prod.fst then none else c.map.lookup k :=
  HashMap.lookup_foldl_erase Prod.fst _ c.map k

theorem len_shed_le (c : Cache) (target : ℕ) : (c.shed target).len ≤ c.len :=
  HashMap.len_foldl_erase_le Prod.fst _ c.map

theorem len_shed {c : Cache} {target : ℕ} (h : target ≤ c.len) :
    (c.shed target).len + target = c.len := by
  have hnodup : ((c.byExpiry.take target).map Prod.fst).Nodup :=
    (nodup_byExpiry c).sublist ((List.take_sublist _ _).map _)
  have hmem : ∀ v ∈ c.byExpiry.take target, v.1 ∈ c.map := by
    intro v hv
    obtain ⟨e, he, -⟩ := mem_byExpiry.mp (List.mem_of_mem_take hv)
    exact AList.lookup_isSome.mp (by rw [he]; rfl)
  have hlen := HashMap.len_foldl_erase hnodup hmem
  rwa [List.length_take, length_byExpiry, Nat.min_eq_left h] at hlen

/-- What is shed expires no later than what is kept. -/
theorem expires_le_of_shed {c : Cache} {target : ℕ} {k k' : Key} {e e' : Entry}
    (hold : c.map.lookup k = some e) (hgone : (c.shed target).map.lookup k = none)
    (hkept : (c.shed target).map.lookup k' = some e') : e.expires ≤ e'.expires := by
  rw [lookup_shed] at hgone hkept
  split at hkept
  · cases hkept
  · next hnot =>
    split at hgone
    · next hshed =>
      obtain ⟨v, hv, rfl⟩ := List.mem_map.mp hshed
      obtain ⟨e₀, he₀, hexpires⟩ := mem_byExpiry.mp (List.mem_of_mem_take hv)
      obtain rfl : e₀ = e := Option.some.inj (he₀.symm.trans hold)
      have hmem : (k', e'.expires) ∈ c.byExpiry := mem_byExpiry.mpr ⟨e', hkept, rfl⟩
      have hsorted := pairwise_byExpiry c
      rw [← List.take_append_drop target c.byExpiry] at hmem hsorted
      have hdrop := (List.mem_append.mp hmem).resolve_left fun htake =>
        hnot (List.mem_map_of_mem htake)
      rw [hexpires]
      exact (List.pairwise_append.mp hsorted).2.2 v hv _ hdrop
    · rw [hold] at hgone
      cases hgone

/-! ### Making room -/

theorem evict_of_expired {c : Cache} {now : ℕ}
    (h : ∃ k e, c.map.lookup k = some e ∧ e.expires ≤ now) : c.evict now = c.dropExpired now :=
  if_pos (len_dropExpired_lt_iff.mpr h)

theorem evict_of_live {c : Cache} {now : ℕ}
    (h : ∀ k e, c.map.lookup k = some e → now < e.expires) :
    c.evict now = c.shed (c.len / 10 + 1) := by
  rw [evict, dropExpired_eq_self h]
  exact if_neg (lt_irrefl _)

theorem evict_evicts {c : Cache} (hpos : 0 < c.len) (now : ℕ) : Evicts now c (c.evict now) where
  expired h k e := by
    rw [evict_of_expired h]
    exact lookup_dropExpired
  kept _ _ h := (evict_within c now).lookup h
  shed h := by
    rw [evict_of_live h]
    exact ⟨len_shed (by omega), fun k e k' e' => expires_le_of_shed⟩

theorem len_evict_le (c : Cache) (now : ℕ) : (c.evict now).len ≤ c.len := by
  rw [evict]
  split
  · exact len_dropExpired_le c now
  · exact (len_shed_le _ _).trans (len_dropExpired_le c now)

/-- At least one slot is freed in either mode. -/
theorem len_evict_lt {c : Cache} (hpos : 0 < c.len) (now : ℕ) : (c.evict now).len < c.len := by
  by_cases h : ∃ k e, c.map.lookup k = some e ∧ e.expires ≤ now
  · rw [evict_of_expired h]
    exact len_dropExpired_lt_iff.mpr h
  · push Not at h
    have hshed := ((evict_evicts hpos now).shed h).1
    omega

theorem len_madeRoom_lt {c : Cache} (hpos : 0 < c.maxEntries) (hlen : c.len ≤ c.maxEntries)
    (now : ℕ) : (c.madeRoom now).len < c.maxEntries := by
  rw [madeRoom]
  split
  · next hfull => exact (len_evict_lt (hpos.trans_le hfull) now).trans_le hlen
  · next hroom => exact not_le.mp hroom

theorem insert_of_some {c : Cache} {key : Key} {message : Message} {life : UInt32}
    (h : lifetime c.minTtl c.maxTtl message = some life) (evictNow now : ℕ) :
    c.insert key message evictNow now =
      (true, { c.madeRoom evictNow with
        map := (c.madeRoom evictNow).map.insert key (entryOf message life now) }) := by
  rw [insert, h]
  rfl

theorem insert_of_none {c : Cache} {key : Key} {message : Message}
    (h : lifetime c.minTtl c.maxTtl message = none) (evictNow now : ℕ) :
    c.insert key message evictNow now = (false, c) := by
  rw [insert, h]

theorem lifetime_of_stored {c : Cache} {key : Key} {message : Message} {evictNow now : ℕ}
    (h : (c.insert key message evictNow now).1 = true) :
    ∃ life, lifetime c.minTtl c.maxTtl message = some life := by
  cases hlife : lifetime c.minTtl c.maxTtl message with
  | none =>
    rw [insert_of_none hlife] at h
    cases h
  | some life => exact ⟨life, rfl⟩

theorem len_insert_le {c : Cache} (hpos : 0 < c.maxEntries) (hlen : c.len ≤ c.maxEntries)
    (key : Key) (message : Message) (evictNow now : ℕ) :
    (c.insert key message evictNow now).2.len ≤ c.maxEntries := by
  cases hlife : lifetime c.minTtl c.maxTtl message with
  | none =>
    rw [insert_of_none hlife]
    exact hlen
  | some life =>
    rw [insert_of_some hlife]
    have hroom := len_madeRoom_lt hpos hlen evictNow
    exact (HashMap.len_insert_le _ key _).trans hroom

theorem maxEntries_evict (c : Cache) (now : ℕ) : (c.evict now).maxEntries = c.maxEntries := by
  rw [evict]
  split <;> rfl

theorem maxEntries_apply (c : Cache) (op : CacheOp) : (c.apply op).maxEntries = c.maxEntries := by
  cases op with
  | insert key message evictNow now =>
    rw [apply]
    cases hlife : lifetime c.minTtl c.maxTtl message with
    | none => rw [insert_of_none hlife]
    | some life =>
      rw [insert_of_some hlife, madeRoom]
      dsimp only
      split
      · exact maxEntries_evict c evictNow
      · rfl
  | get key now =>
    rw [apply, get]
    split
    · rfl
    · split <;> rfl
  | evict now => exact maxEntries_evict c now
  | sweep now => rfl
  | clear => rfl

theorem len_get_le (c : Cache) (key : Key) (now : ℕ) : (c.get key now).2.len ≤ c.len := by
  rw [get]
  split
  · exact le_rfl
  · split
    · exact HashMap.len_erase_le c.map key
    · exact le_rfl

theorem len_apply_le {c : Cache} (hpos : 0 < c.maxEntries) (hlen : c.len ≤ c.maxEntries)
    (op : CacheOp) : (c.apply op).len ≤ c.maxEntries := by
  cases op with
  | insert key message evictNow now => exact len_insert_le hpos hlen key message evictNow now
  | get key now => exact (len_get_le c key now).trans hlen
  | evict now => exact (len_evict_le c now).trans hlen
  | sweep now => exact (len_dropExpired_le c now).trans hlen
  | clear => exact Nat.zero_le _

/-- `get` takes out what has expired, and only under the key it looks up. -/
theorem lookup_get_of_live {c : Cache} {key k : Key} {now : ℕ} {e : Entry}
    (h : c.map.lookup k = some e) (hlive : now < e.expires) :
    (c.get key now).2.map.lookup k = some e := by
  rw [get]
  split
  · exact h
  · next e' he' =>
    split
    · next hexpired =>
      refine (AList.lookup_erase_ne fun heq => ?_).trans h
      subst heq
      obtain rfl : e' = e := Option.some.inj (he'.symm.trans h)
      omega
    · exact h

end Cache

theorem capacityKept_of_len_le {maxEntries : ℕ} {c : Cache}
    (hmax : c.maxEntries = max maxEntries 1) (hlen : c.len ≤ c.maxEntries) :
    CapacityKept maxEntries c := by
  have hpos : 0 < c.maxEntries := by omega
  constructor
  · exact hlen.trans_eq hmax
  · exact fun key message evictNow now =>
      (Cache.len_insert_le hpos hlen key message evictNow now).trans_eq hmax
  · intro key message evictNow now hdeclined
    cases hlife : lifetime c.minTtl c.maxTtl message with
    | none => rw [Cache.insert_of_none hlife]
    | some life =>
      rw [Cache.insert_of_some hlife] at hdeclined
      cases hdeclined
  · intro key message evictNow now hstored
    obtain ⟨life, hlife⟩ := Cache.lifetime_of_stored hstored
    refine ⟨life, hlife, ?_⟩
    rw [Cache.insert_of_some hlife]
    exact AList.lookup_insert _
  · intro key message evictNow now hstored
    obtain ⟨life, hlife⟩ := Cache.lifetime_of_stored hstored
    refine ⟨c.madeRoom evictNow, ?_, fun k hk => ?_⟩
    · rw [Cache.madeRoom, ← hmax]
      by_cases hfull : c.maxEntries ≤ c.len
      · rw [if_pos hfull, if_pos hfull]
        exact Cache.evict_evicts (hpos.trans_le hfull) evictNow
      · rw [if_neg hfull, if_neg hfull]
    · rw [Cache.insert_of_some hlife]
      exact AList.lookup_insert_ne hk
  · exact fun key now k e => Cache.lookup_get_of_live
  · exact fun now k e h hlive => Cache.lookup_dropExpired.mpr ⟨h, hlive⟩

theorem len_of_reordered {c : Cache} {m : HashMap Key Entry} (h : HashMap.Reordered c.map m) :
    ({ c with map := m } : Cache).len = c.len :=
  h.length_eq.symm

theorem Run.size {maxEntries : ℕ} {minTtl maxTtl : UInt32} {ops : List CacheOp} {t : ℕ}
    {c : Cache} (h : Run maxEntries minTtl maxTtl ops t c) :
    c.maxEntries = max maxEntries 1 ∧ c.len ≤ c.maxEntries := by
  induction h with
  | start now => exact ⟨rfl, Nat.zero_le _⟩
  | @step ops t c op m _ hmap _ ih =>
    obtain ⟨hmax, hlen⟩ := ih
    rw [Cache.maxEntries_apply]
    refine ⟨hmax, Cache.len_apply_le (c := { c with map := m }) ?_ ?_ op⟩
    · show 0 < c.maxEntries
      omega
    · exact (len_of_reordered hmap).trans_le hlen

/-- However the calls were made and wherever the entries lie, the cache is bounded, and its
calls lose no other live entry. -/
theorem Run.capacityKept {maxEntries : ℕ} {minTtl maxTtl : UInt32} {ops : List CacheOp} {t : ℕ}
    {c : Cache} (h : Run maxEntries minTtl maxTtl ops t c) {m : HashMap Key Entry}
    (hmap : HashMap.Reordered c.map m) : CapacityKept maxEntries { c with map := m } := by
  obtain ⟨hmax, hlen⟩ := h.size
  exact capacityKept_of_len_le hmax ((len_of_reordered hmap).trans_le hlen)

/-- A cache for one answer, which has it. -/
def fullCache : Cache := (Cache.new 1 30 86400).apply (storeGlue 600)

def mailKey : Key := ⟨"mail.example.com".toList, .a, .internet, false, false⟩

/-- Another answer is stored in it, for which the first one has to go. -/
theorem capacityKept_fullCache :
    CapacityKept 1 fullCache ∧ fullCache.len = 1 ∧
      (fullCache.insert mailKey (withGlue 600) 5 5).1 = true ∧
      (fullCache.insert mailKey (withGlue 600) 5 5).2.map.lookup nsKey = none := by
  have hrun : Run 1 30 86400 [storeGlue 600] 0 fullCache :=
    .step (storeGlue 600) ∅ (.start 0) (.refl _) (by simp [storeGlue, CacheOp.readings])
  exact ⟨hrun.capacityKept (.refl _), by decide, by decide, by decide +kernel⟩

end Netwatch.Dns
