import Netwatch.RustStd.HashMap

/-!
# Tables whose values expire

A table that may forget what has expired, against one that forgets nothing.

## Main definitions

- `Remembers` — nothing but expired values is missing

## Main results

- `Remembers.filter_lookup` — the two cannot be told apart by what has not expired
- `Remembers.len_le` — a table without expired values is no larger than what is still to be kept
-/

namespace Lookup

open RustStd

variable {K V : Type*} [DecidableEq K]

structure Remembers (expires : V → ℕ) (t : ℕ) (m full : HashMap K V) : Prop where
  known : ∀ k v, m.lookup k = some v → full.lookup k = some v
  live : ∀ k v, full.lookup k = some v → t < expires v → m.lookup k = some v

variable {expires : V → ℕ} {t : ℕ} {m full : HashMap K V}

theorem remembers_empty (expires : V → ℕ) (t : ℕ) : Remembers (K := K) expires t ∅ ∅ where
  known _ _ h := h
  live _ _ h _ := h

namespace Remembers

theorem later (h : Remembers expires t m full) {t' : ℕ} (hle : t ≤ t') :
    Remembers expires t' m full :=
  ⟨h.known, fun k v hv hlive => h.live k v hv (hle.trans_lt hlive)⟩

theorem insert (h : Remembers expires t m full) (k : K) (v : V) :
    Remembers expires t (m.insert k v) (full.insert k v) := by
  constructor
  · intro k' v' hv
    rw [HashMap.lookup_insert] at hv ⊢
    by_cases hk : k' = k
    · rwa [if_pos hk] at hv ⊢
    · rw [if_neg hk] at hv ⊢
      exact h.known k' v' hv
  · intro k' v' hv hlive
    rw [HashMap.lookup_insert] at hv ⊢
    by_cases hk : k' = k
    · rwa [if_pos hk] at hv ⊢
    · rw [if_neg hk] at hv ⊢
      exact h.live k' v' hv hlive

/-- Values may be taken out if they have expired. -/
theorem forget (h : Remembers expires t m full) {m' : HashMap K V}
    (hsub : ∀ k v, m'.lookup k = some v → m.lookup k = some v)
    (hkept : ∀ k v, m.lookup k = some v → t < expires v → m'.lookup k = some v) :
    Remembers expires t m' full where
  known k v hv := h.known k v (hsub k v hv)
  live k v hv hlive := hkept k v (h.live k v hv hlive) hlive

theorem filter_lookup (h : Remembers expires t m full) (k : K) :
    (m.lookup k).filter (fun v => t < expires v) =
      (full.lookup k).filter fun v => t < expires v := by
  ext v
  rw [Option.filter_eq_some_iff, Option.filter_eq_some_iff, decide_eq_true_iff]
  constructor
  · rintro ⟨hv, hlive⟩
    exact ⟨h.known k v hv, hlive⟩
  · rintro ⟨hv, hlive⟩
    exact ⟨h.live k v hv hlive, hlive⟩

theorem len_le (h : Remembers expires t m full)
    (hall : ∀ k v, m.lookup k = some v → t < expires v) :
    m.len ≤ full.countValues fun v => t < expires v := by
  have hsub : m.keys ⊆ (full.entries.filter fun e => t < expires e.2).map Sigma.fst := by
    intro k hk
    obtain ⟨v, hv⟩ := Option.isSome_iff_exists.mp (AList.lookup_isSome.mpr (AList.mem_keys.mp hk))
    have hmem := AList.mem_lookup_iff.mp (h.known k v hv)
    exact List.mem_map.mpr
      ⟨⟨k, v⟩, List.mem_filter.mpr ⟨hmem, decide_eq_true (hall k v hv)⟩, rfl⟩
  have hle := (List.subperm_of_subset m.keys_nodup hsub).length_le
  rw [List.length_map, ← List.countP_eq_length_filter] at hle
  rwa [AList.keys, List.keys, List.length_map] at hle

end Remembers

end Lookup
