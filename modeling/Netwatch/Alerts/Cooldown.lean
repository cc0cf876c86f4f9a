import Netwatch.Alerts.Queue

/-!
# The size of the cooldown map

`take_cooldown_slot` prunes the map once it has grown, so that a network full of randomised MACs
cannot grow it for ever. Only entries whose cooldown has passed are pruned: while none has, every
new subject takes another entry.

## Main definitions

- `AlertSink.Fits` — there is a free place for the entry, or the pruning makes one
- `churn` — more subjects than the map should hold, all at once

## Main results

- `len_takeCooldownSlot_le_iff` — one call
- `len_run_le_iff` — the map stays bounded exactly in runs whose alerts fit
-/

namespace Netwatch.Alerts

open RustStd Interleaving

/-- The map has room, or the key is in it, or some cooldown has passed. -/
def AlertSink.Fits (alert : Alert) (now : ℕ) (sink : AlertSink) : Prop :=
  sink.cooldown.len ≤ 4096 ∨ alert.key ∈ sink.cooldown ∨
    ∃ key last, sink.cooldown.lookup key = some last ∧ sink.cooldownFor ≤ now - last

def Event.Fits : Event → AlertSink → Prop
  | .raise alert now, sink => sink.Fits alert now
  | .drain, _ => True

namespace AlertSink

/-- The entries that the pruning keeps. -/
def live (now : ℕ) (sink : AlertSink) : HashMap (Str × Str) ℕ :=
  sink.cooldown.retain fun _ t => now - t < sink.cooldownFor

theorem cooldown_of_not_free {kind subject : Str} {now : ℕ} {sink : AlertSink}
    (h : ¬ sink.Free (kind, subject) now) :
    (sink.takeCooldownSlot kind subject now).2.cooldown = sink.cooldown := by
  obtain ⟨-, hslot⟩ | ⟨hfree, -⟩ := takeCooldownSlot_cases kind subject now sink
  · rw [hslot]
  · exact absurd hfree h

theorem cooldown_of_free {kind subject : Str} {now : ℕ} {sink : AlertSink}
    (h : sink.Free (kind, subject) now) :
    (sink.takeCooldownSlot kind subject now).2.cooldown =
      (if sink.cooldown.len > 4096 then sink.live now else sink.cooldown).insert
        (kind, subject) now := by
  have hslot : (sink.takeCooldownSlot kind subject now).1 = true := by
    obtain ⟨hnot, -⟩ | ⟨-, map, hslot, -⟩ := takeCooldownSlot_cases kind subject now sink
    · exact absurd h hnot
    · rw [hslot]
  rw [takeCooldownSlot] at hslot ⊢
  dsimp only at hslot ⊢
  split at hslot
  · cases hslot
  · next hnone =>
    rw [if_neg hnone]
    rfl

/-- A key whose cooldown has passed is pruned. -/
theorem notMem_live {key : Str × Str} {now : ℕ} {sink : AlertSink} (h : sink.Free key now) :
    key ∉ sink.live now := by
  rw [← AList.lookup_eq_none, live, HashMap.lookup_retain, Option.filter_eq_none_iff]
  intro last hlast hlive
  have hpassed := h last hlast
  have hrecent : now - last < sink.cooldownFor := of_decide_eq_true hlive
  omega

/-- Nothing is pruned while no cooldown has passed. -/
theorem live_eq_self {now : ℕ} {sink : AlertSink}
    (h : ∀ key last, sink.cooldown.lookup key = some last → now - last < sink.cooldownFor) :
    sink.live now = sink.cooldown :=
  HashMap.retain_eq_self fun e he => decide_eq_true (h e.1 e.2 (AList.mem_lookup_iff.mpr he))

theorem len_live_lt_iff {now : ℕ} {sink : AlertSink} :
    (sink.live now).len < sink.cooldown.len ↔
      ∃ key last, sink.cooldown.lookup key = some last ∧ sink.cooldownFor ≤ now - last := by
  rw [live, HashMap.len_retain_lt_iff]
  simp only [decide_eq_false_iff_not, not_lt]

/-- A call that finds the map within its bound leaves it there exactly if the entry fits. -/
theorem len_takeCooldownSlot_le_iff {sink : AlertSink} (hlen : sink.cooldown.len ≤ 4097)
    (alert : Alert) (now : ℕ) :
    (sink.takeCooldownSlot alert.kind alert.subject now).2.cooldown.len ≤ 4097 ↔
      sink.Fits alert now := by
  by_cases hfree : sink.Free (alert.kind, alert.subject) now
  · rw [cooldown_of_free hfree]
    by_cases hfull : sink.cooldown.len > 4096
    · -- the pruned map no longer has the key, so the entry is one more
      rw [if_pos hfull, HashMap.len_insert_of_notMem (notMem_live hfree)]
      have hroom : (sink.live now).len + 1 ≤ 4097 ↔ (sink.live now).len < sink.cooldown.len := by
        have hle := HashMap.len_retain_le sink.cooldown fun _ t =>
          decide (now - t < sink.cooldownFor)
        omega
      rw [hroom, len_live_lt_iff, Fits]
      constructor
      · exact fun hold => .inr (.inr hold)
      · rintro (hsmall | hmem | hold)
        · omega
        · obtain ⟨last, hlast⟩ := Option.isSome_iff_exists.mp (AList.lookup_isSome.mpr hmem)
          exact ⟨alert.key, last, hlast, hfree last hlast⟩
        · exact hold
    -- below the bound there is room for one more
    · rw [if_neg hfull]
      refine iff_of_true ?_ (.inl (not_lt.mp hfull))
      have hle := HashMap.len_insert_le sink.cooldown (alert.kind, alert.subject) now
      omega
  · rw [cooldown_of_not_free hfree]
    -- within its cooldown a key has an entry already
    refine iff_of_true hlen (.inr (.inl ?_))
    rw [← AList.lookup_isSome]
    cases hlast : sink.cooldown.lookup alert.key with
    | none =>
      refine absurd (fun last hmem => ?_) hfree
      rw [show sink.cooldown.lookup (alert.kind, alert.subject) = none from hlast] at hmem
      cases hmem
    | some last => rfl

end AlertSink

theorem len_exec_le_iff (depth : ℕ) {sink : AlertSink} (hlen : sink.cooldown.len ≤ 4097)
    (e : Event) : (e.exec depth sink).cooldown.len ≤ 4097 ↔ e.Fits sink := by
  cases e with
  | raise alert now =>
    rw [Event.exec, (AlertSink.cooldown_raiseWithin depth alert now sink).1]
    exact AlertSink.len_takeCooldownSlot_le_iff hlen alert now
  | drain => exact iff_of_true hlen trivial

/-- The map never exceeds its bound exactly if every alert fits. -/
theorem len_run_le_iff (depth cooldownFor : ℕ) (events : List Event) :
    (∀ n, (run (Event.exec depth) (events.take n) (.unused cooldownFor)).cooldown.len ≤ 4097) ↔
      Along (Event.exec depth) Event.Fits events (.unused cooldownFor) := by
  have hempty : (AlertSink.unused cooldownFor).cooldown.len ≤ 4097 := Nat.zero_le _
  refine (along_iff_forall_take (I := fun sink : AlertSink => sink.cooldown.len ≤ 4097)
    (fun _ h => h) ?_ ?_ hempty).symm
  · intro e sink hfits hlen
    exact (len_exec_le_iff depth hlen e).mpr hfits
  · intro e sink hlen hnext
    exact (len_exec_le_iff depth hlen e).mp hnext

/-! ### Many subjects at once -/

/-- While no cooldown has passed, every new subject takes another entry. -/
theorem len_run_fresh (depth : ℕ) {now : ℕ} {alerts : List Alert} {sink : AlertSink}
    (hlive : ∀ key last, sink.cooldown.lookup key = some last → now - last < sink.cooldownFor)
    (hpos : 0 < sink.cooldownFor) (hnodup : (alerts.map Alert.key).Nodup)
    (hfresh : ∀ a ∈ alerts, a.key ∉ sink.cooldown) :
    (run (Event.exec depth) (alerts.map (.raise · now)) sink).cooldown.len =
      sink.cooldown.len + alerts.length := by
  induction alerts generalizing sink with
  | nil => rfl
  | cons a alerts ih =>
    obtain ⟨hnot, hnodup⟩ := List.nodup_cons.mp hnodup
    have hnew : a.key ∉ sink.cooldown := hfresh a List.mem_cons_self
    have hfree : sink.Free (a.kind, a.subject) now := by
      intro last hlast
      rw [show sink.cooldown.lookup (a.kind, a.subject) = none from
        AList.lookup_eq_none.mpr hnew] at hlast
      cases hlast
    obtain ⟨hmap, hperiod⟩ := AlertSink.cooldown_raiseWithin depth a now sink
    -- no entry has expired, so pruning takes nothing out
    have hinsert : (sink.raiseWithin depth a now).cooldown = sink.cooldown.insert a.key now := by
      rw [hmap, AlertSink.cooldown_of_free hfree, AlertSink.live_eq_self hlive, ite_self]
      rfl
    rw [List.map_cons, run_cons, List.length_cons]
    refine (ih ?_ ?_ hnodup ?_).trans ?_
    · intro key last hlast
      show now - last < (sink.raiseWithin depth a now).cooldownFor
      rw [hperiod]
      obtain ⟨-, rfl⟩ | ⟨-, hold⟩ := HashMap.of_lookup_insert (hinsert ▸ hlast)
      · omega
      · exact hlive key last hold
    · exact hpos.trans_eq hperiod.symm
    · intro b hb hmem
      have hmem : b.key ∈ sink.cooldown.insert a.key now := hinsert ▸ hmem
      obtain heq | hold := AList.mem_insert _ |>.mp hmem
      · exact hnot (List.mem_map.mpr ⟨b, hb, heq⟩)
      · exact hfresh b (List.mem_cons_of_mem a hb) hold
    · show (sink.raiseWithin depth a now).cooldown.len + alerts.length = _
      rw [hinsert, HashMap.len_insert_of_notMem hnew]
      omega

theorem ordered_at_once (alerts : List Alert) (now : ℕ) : Ordered (alerts.map (.raise · now)) := by
  have htimes : (alerts.map (Event.raise · now)).filterMap Event.time =
      alerts.map fun _ => now := by
    rw [List.filterMap_map, ← List.filterMap_eq_map]
    rfl
  rw [Ordered, htimes, List.pairwise_map]
  exact List.pairwise_of_forall fun _ _ => le_rfl

def churn : List Event := scan (offenders 4098) 0

/-- Within one cooldown the map takes an entry for each of 4098 subjects. -/
theorem not_len_run_le : Ordered churn ∧
    ¬ ∀ n, (run (Event.exec queueDepth) (churn.take n) (.unused hour)).cooldown.len ≤ 4097 := by
  have hscan : churn = ((List.range 4098).map storm).map (.raise · 0) := by
    rw [churn, scan, offenders, List.map_map, List.map_map]
    rfl
  refine ⟨hscan ▸ ordered_at_once _ 0, fun hbound => ?_⟩
  have hlen : (run (Event.exec queueDepth) churn (.unused hour)).cooldown.len = 4098 := by
    rw [hscan, len_run_fresh queueDepth ?_ (by decide) (nodup_storms (by decide)) ?_,
      List.length_map, List.length_range]
    · exact Nat.zero_add 4098
    · intro key last hlast
      cases hlast
    · intro a _ hmem
      cases hmem
  have hall := hbound churn.length
  rw [List.take_length, hlen] at hall
  exact absurd hall (by decide)

end Netwatch.Alerts
