import Netwatch.Dns.CacheCapacity
import Netwatch.Interleaving.Run
import Netwatch.Lookup.Expiring

/-!
# What the cache still knows

The cache takes entries out in three places: where a lookup meets an expired one, in the sweeps,
and to make room. As long as there are fewer answers to be kept than it has room for, none of this
can be seen: it answers as a cache without a bound that is never swept.

## Main definitions

- `remember` — the cache that takes nothing out
- `Fits` — there is room for what has not expired

## Main results

- `recalls_run` — the two give the same answers
-/

namespace Netwatch.Dns

open RustStd Hickory Interleaving

/-- One call on a cache that takes out nothing but what is cleared. -/
def remember (minTtl maxTtl : UInt32) (op : CacheOp) (full : HashMap Key Entry) :
    HashMap Key Entry :=
  match op with
  | .insert key message _ now =>
    match lifetime minTtl maxTtl message with
    | some life => full.insert key (entryOf message life now)
    | none => full
  | .clear => ∅
  | .get _ _ | .evict _ | .sweep _ => full

/-- An insert finds fewer unexpired answers than there may be entries; `evict` is not called from
elsewhere. -/
def Fits (maxEntries : ℕ) (op : CacheOp) (full : HashMap Key Entry) : Prop :=
  match op with
  | .insert _ _ evictNow _ =>
    full.countValues (fun e => evictNow < e.expires) < max maxEntries 1
  | .evict _ => False
  | .get _ _ | .sweep _ | .clear => True

/-- What a cache without a bound answers. -/
def remembered (full : HashMap Key Entry) (key : Key) (now : ℕ) : Option CachedAnswer :=
  ((full.lookup key).filter fun e => now < e.expires).map fun e => Cache.answerFrom e now

abbrev Recalls (t : ℕ) (c : Cache) (full : HashMap Key Entry) : Prop :=
  Lookup.Remembers Entry.expires t c.map full

namespace Cache

variable {c : Cache} {t : ℕ} {full : HashMap Key Entry}

theorem recalls_dropExpired (h : Recalls t c full) : Recalls t (c.dropExpired t) full :=
  h.forget (fun _ _ hv => (lookup_dropExpired.mp hv).1)
    fun _ _ hv hlive => lookup_dropExpired.mpr ⟨hv, hlive⟩

/-- Where something has expired, only that makes room; otherwise there was room. -/
theorem recalls_madeRoom (h : Recalls t c full)
    (hroom : full.countValues (fun e => t < e.expires) < c.maxEntries) :
    Recalls t (c.madeRoom t) full := by
  rw [madeRoom]
  split
  · next hfull =>
    by_cases hexpired : ∃ k e, c.map.lookup k = some e ∧ e.expires ≤ t
    · rw [evict_of_expired hexpired]
      exact recalls_dropExpired h
    · have hall : ∀ k e, c.map.lookup k = some e → t < e.expires := by
        intro k e he
        by_contra hdead
        exact hexpired ⟨k, e, he, not_lt.mp hdead⟩
      have hlen : c.len ≤ _ := h.len_le hall
      omega
  · exact h

theorem recalls_get (h : Recalls t c full) (key : Key) : Recalls t (c.get key t).2 full :=
  h.forget (fun _ _ hv => (get_within c key t).lookup hv) fun _ _ => lookup_get_of_live

theorem recalls_apply (h : Recalls t c full) {op : CacheOp}
    (hclock : (t :: op.readings).Pairwise (· ≤ ·)) {maxEntries : ℕ}
    (hmax : c.maxEntries = max maxEntries 1) (hfits : Fits maxEntries op full) :
    Recalls (op.readings.getLastD t) (c.apply op) (remember c.minTtl c.maxTtl op full) := by
  cases op with
  | insert key message evictNow now =>
    -- the clock is read to make room, and once more for the entry
    have hle : t ≤ evictNow ∧ evictNow ≤ now := by
      rw [CacheOp.readings, List.pairwise_cons, List.pairwise_pair] at hclock
      exact ⟨hclock.1 evictNow List.mem_cons_self, hclock.2⟩
    have hroom : full.countValues (fun e => evictNow < e.expires) < c.maxEntries :=
      hmax.symm ▸ hfits
    rw [apply, remember]
    cases hlife : lifetime c.minTtl c.maxTtl message with
    | none =>
      rw [insert_of_none hlife]
      exact h.later (hle.1.trans hle.2)
    | some life =>
      rw [insert_of_some hlife]
      exact ((recalls_madeRoom (h.later hle.1) hroom).later hle.2).insert key _
  | get key now =>
    have hle : t ≤ now := le_getLastD_of_clock hclock
    exact recalls_get (h.later hle) key
  | evict now => exact hfits.elim
  | sweep now =>
    have hle : t ≤ now := le_getLastD_of_clock hclock
    exact recalls_dropExpired (h.later hle)
  | clear => exact Lookup.remembers_empty Entry.expires t

theorem get_of_recalls (h : Recalls t c full) (key : Key) :
    (c.get key t).1 = remembered full key t := by
  rw [remembered, ← h.filter_lookup, get]
  cases c.map.lookup key with
  | none => rfl
  | some e =>
    dsimp only
    by_cases hdead : e.expires ≤ t
    · rw [if_pos hdead, Option.filter_some, if_neg (by simpa using hdead)]
      rfl
    · rw [if_neg hdead, Option.filter_some, if_pos (by simpa using hdead)]
      rfl

end Cache

theorem Run.recalls {maxEntries : ℕ} {minTtl maxTtl : UInt32} {ops : List CacheOp} {t : ℕ}
    {c : Cache} (h : Run maxEntries minTtl maxTtl ops t c)
    (hfits : Along (remember minTtl maxTtl) (Fits maxEntries) ops ∅) :
    Recalls t c (run (remember minTtl maxTtl) ops ∅) := by
  induction h with
  | start now => exact Lookup.remembers_empty Entry.expires now
  | @step ops t c op m hrun hmap hclock ih =>
    obtain ⟨hbefore, hop, -⟩ := along_append.mp hfits
    have hreordered : Recalls t { c with map := m } (run (remember minTtl maxTtl) ops ∅) :=
      (ih hbefore).forget (fun k v hv => (hmap.lookup_eq k).trans hv)
        fun k v hv _ => (hmap.lookup_eq k).symm.trans hv
    have hstep := Cache.recalls_apply hreordered hclock hrun.size.1 hop
    rw [run_append, run_cons, run_nil, ← hrun.mirrors.minTtl_eq, ← hrun.mirrors.maxTtl_eq]
    rw [← hrun.mirrors.minTtl_eq, ← hrun.mirrors.maxTtl_eq] at hstep
    exact hstep

/-- Whatever has been swept, looked up and evicted in between, and however the entries lie. -/
theorem recalls_run {maxEntries : ℕ} {minTtl maxTtl : UInt32} {ops : List CacheOp} {t : ℕ}
    {c : Cache} (h : Run maxEntries minTtl maxTtl ops t c)
    (hfits : Along (remember minTtl maxTtl) (Fits maxEntries) ops ∅) {now : ℕ} (hnow : t ≤ now)
    (key : Key) :
    (c.get key now).1 = remembered (run (remember minTtl maxTtl) ops ∅) key now :=
  Cache.get_of_recalls ((h.recalls hfits).later hnow) key

def wwwKey : Key := { nsKey with name := "www.example.com".toList }

/-- The cache has room for one answer, and the first one has expired when the second is stored. -/
def replaced : List CacheOp :=
  [storeGlue 600, .insert wwwKey (withGlue 600) (secs 400) (secs 400)]

theorem recalls_run_replaced :
    ((((Cache.new 1 30 86400).apply (storeGlue 600)).apply
        (.insert wwwKey (withGlue 600) (secs 400) (secs 400))).get wwwKey (secs 500)).1 =
      remembered (run (remember 30 86400) replaced ∅) wwwKey (secs 500) := by
  have hfirst : Run 1 30 86400 [storeGlue 600] 0 ((Cache.new 1 30 86400).apply (storeGlue 600)) :=
    .step _ ∅ (.start 0) (.refl _) (by decide)
  have hrun : Run 1 30 86400 replaced (secs 400) _ :=
    .step (.insert wwwKey (withGlue 600) (secs 400) (secs 400)) _ hfirst (.refl _) (by decide)
  refine recalls_run hrun ⟨?_, ?_, trivial⟩ (by decide) wwwKey
  · show HashMap.countValues _ _ < _
    decide
  · show HashMap.countValues _ _ < _
    decide

end Netwatch.Dns
