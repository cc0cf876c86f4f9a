import Netwatch.Alerts
import Netwatch.Debounce.Log
import Netwatch.Interleaving.Run
import Netwatch.RustStd.Ipv4Text

/-!
# The alert queue

Alerts wait for the notifier in a channel of fixed depth, and an alert that finds it full is
dropped. By then it has taken its cooldown slot, so that the next alert like it is suppressed
although none was delivered.

## Main definitions

- `AlertSink.raiseWithin` — `raise` on a channel of some depth
- `DeliveredFirst` — only a delivered alert suppresses the alerts like it
- `Lossless` — no alert follows a dropped one within the cooldown, unless it is dropped as well

## Main results

- `raiseWithin_of_room` — with room in the channel nothing is dropped
- `tracks_run` — the pruned map decides as the log of all slots would
- `deliveredFirst_iff` — suppression needs a delivered alert exactly in lossless runs
-/

namespace Netwatch.Alerts

open RustStd Debounce Interleaving

def queueDepth : ℕ := 256

def Alert.key (alert : Alert) : Str × Str := (alert.kind, alert.subject)

namespace AlertSink

/-- `try_send` does not wait for room. -/
def trySend (depth : ℕ) (alert : Alert) (sink : AlertSink) : Bool × AlertSink :=
  if sink.queue.length < depth then (true, { sink with queue := sink.queue ++ [alert] })
  else (false, sink)

def raiseWithin (depth : ℕ) (alert : Alert) (now : ℕ) (sink : AlertSink) : AlertSink :=
  let (slot, sink) := sink.takeCooldownSlot alert.kind alert.subject now
  -- whether it could be sent is logged, and the slot stays taken
  if slot then (sink.trySend depth alert).2 else sink

/-- The draining task takes the next alert. -/
def recv (sink : AlertSink) : Option Alert × AlertSink :=
  (sink.queue.head?, { sink with queue := sink.queue.tail })

/-- A sink before its first alert. -/
def unused (cooldownFor : ℕ) : AlertSink := ⟨cooldownFor, ∅, []⟩

/-- The cooldown of a key has passed. -/
def Free (sink : AlertSink) (key : Str × Str) (now : ℕ) : Prop :=
  ∀ last ∈ sink.cooldown.lookup key, sink.cooldownFor ≤ now - last

/-- The alert is queued. -/
def Enters (depth : ℕ) (alert : Alert) (now : ℕ) (sink : AlertSink) : Prop :=
  (sink.raiseWithin depth alert now).queue = sink.queue ++ [alert]

/-- The alert takes its slot, and there is no room for it. -/
def Loses (depth : ℕ) (alert : Alert) (now : ℕ) (sink : AlertSink) : Prop :=
  (sink.takeCooldownSlot alert.kind alert.subject now).1 = true ∧ depth ≤ sink.queue.length

end AlertSink

inductive Event
  | raise (alert : Alert) (now : ℕ)
  | drain

def Event.exec (depth : ℕ) : Event → AlertSink → AlertSink
  | .raise alert now, sink => sink.raiseWithin depth alert now
  | .drain, sink => sink.recv.2

def Event.time : Event → Option ℕ
  | .raise _ now => some now
  | .drain => none

/-- An alert of that key was raised at that time, with the sink in a state as given. -/
def Raised (depth : ℕ) (P : Alert → ℕ → AlertSink → Prop) (sink : AlertSink)
    (events : List Event) (key : Str × Str) (t : ℕ) : Prop :=
  ∃ pre alert post, events = pre ++ .raise alert t :: post ∧ alert.key = key ∧
    P alert t (run (Event.exec depth) pre sink)

/-- Only a full queue or a delivered alert keeps an alert from being delivered, and delivered
alerts of one key are a cooldown apart. -/
structure DeliveredFirst (depth : ℕ) (sink : AlertSink) (events : List Event) : Prop where
  justified : ∀ pre alert now post, events = pre ++ .raise alert now :: post →
    ¬ (run (Event.exec depth) pre sink).Enters depth alert now →
      depth ≤ (run (Event.exec depth) pre sink).queue.length ∨
        ∃ t, Raised depth (AlertSink.Enters depth) sink pre alert.key t ∧
          now < t + sink.cooldownFor
  spaced : ∀ pre alert now post, events = pre ++ .raise alert now :: post →
    (run (Event.exec depth) pre sink).Enters depth alert now →
      ∀ t, Raised depth (AlertSink.Enters depth) sink pre alert.key t →
        t + sink.cooldownFor ≤ now

/-- No alert finds room within the cooldown of one of its key that was dropped. -/
def Lossless (depth : ℕ) (sink : AlertSink) (events : List Event) : Prop :=
  ∀ pre alert now post, events = pre ++ .raise alert now :: post →
    (run (Event.exec depth) pre sink).queue.length < depth →
      ∀ t, Raised depth (AlertSink.Loses depth) sink pre alert.key t →
        t + sink.cooldownFor ≤ now

/-! ### One alert -/

namespace AlertSink

theorem takeCooldownSlot_cases (kind subject : Str) (now : ℕ) (sink : AlertSink) :
    (¬ sink.Free (kind, subject) now ∧
      sink.takeCooldownSlot kind subject now = (false, sink)) ∨
    (sink.Free (kind, subject) now ∧ ∃ map,
      sink.takeCooldownSlot kind subject now = (true, { sink with cooldown := map }) ∧
      map.lookup (kind, subject) = some now ∧
      ∀ key, key ≠ (kind, subject) → map.lookup key = sink.cooldown.lookup key ∨
        map.lookup key = none ∧ sink.Free key now) := by
  have hfree : sink.Free (kind, subject) now ↔
      ¬ ((sink.cooldown.lookup (kind, subject)).any fun last =>
        now - last < sink.cooldownFor) = true := by
    rw [Free]
    cases sink.cooldown.lookup (kind, subject) with
    | none => simp
    | some last => simp
  by_cases h : sink.Free (kind, subject) now
  · refine .inr ⟨h, ?_⟩
    rw [takeCooldownSlot, if_neg (hfree.mp h)]
    refine ⟨_, rfl, AList.lookup_insert _, fun key hkey => ?_⟩
    rw [AList.lookup_insert_ne hkey]
    split
    · -- only expired entries are cleaned up
      rw [HashMap.lookup_retain]
      cases hlast : sink.cooldown.lookup key with
      | none => exact .inl rfl
      | some last =>
        by_cases hlive : now - last < sink.cooldownFor
        · exact .inl (by simp [hlive])
        · rw [not_lt] at hlive
          refine .inr ⟨by simpa using hlive, ?_⟩
          intro last' hlast'
          rw [hlast, Option.mem_some_iff] at hlast'
          omega
    · exact .inl rfl
  · refine .inl ⟨h, ?_⟩
    rw [takeCooldownSlot, if_pos (not_not.mp (mt hfree.mpr h))]

/-- Raising an alert does nothing within the cooldown of its key, and else takes the slot, with
room in the queue or not. -/
theorem raiseWithin_cases (depth : ℕ) (alert : Alert) (now : ℕ) (sink : AlertSink) :
    (¬ sink.Free alert.key now ∧ sink.raiseWithin depth alert now = sink) ∨
    (sink.Free alert.key now ∧ ∃ map,
      sink.takeCooldownSlot alert.kind alert.subject now = (true, { sink with cooldown := map }) ∧
      sink.raiseWithin depth alert now =
        (trySend depth alert { sink with cooldown := map }).2) := by
  rw [raiseWithin]
  obtain ⟨hfree, hslot⟩ | ⟨hfree, map, hslot, -⟩ :=
    takeCooldownSlot_cases alert.kind alert.subject now sink
  · rw [hslot]
    exact .inl ⟨hfree, rfl⟩
  · rw [hslot]
    exact .inr ⟨hfree, map, rfl, rfl⟩

theorem queue_trySend (depth : ℕ) (alert : Alert) (sink : AlertSink) :
    (trySend depth alert sink).2.queue =
      if sink.queue.length < depth then sink.queue ++ [alert] else sink.queue := by
  rw [trySend]
  split <;> rfl

theorem raiseWithin_of_room {depth : ℕ} {sink : AlertSink} (h : sink.queue.length < depth)
    (alert : Alert) (now : ℕ) : sink.raiseWithin depth alert now = sink.raise alert now := by
  rw [raiseWithin, raise]
  obtain ⟨-, hslot⟩ | ⟨-, map, hslot, -⟩ :=
    takeCooldownSlot_cases alert.kind alert.subject now sink
  · rw [hslot]
    rfl
  · rw [hslot]
    dsimp only
    rw [if_pos rfl, if_pos rfl, trySend, if_pos h]

theorem slot_iff {alert : Alert} {now : ℕ} {sink : AlertSink} :
    (sink.takeCooldownSlot alert.kind alert.subject now).1 = true ↔ sink.Free alert.key now := by
  obtain ⟨hfree, hslot⟩ | ⟨hfree, map, hslot, -⟩ :=
    takeCooldownSlot_cases alert.kind alert.subject now sink
  · rw [hslot]
    exact iff_of_false Bool.false_ne_true hfree
  · rw [hslot]
    exact iff_of_true rfl hfree

theorem enters_iff {depth : ℕ} {alert : Alert} {now : ℕ} {sink : AlertSink} :
    sink.Enters depth alert now ↔ sink.Free alert.key now ∧ sink.queue.length < depth := by
  rw [Enters]
  obtain ⟨hfree, hraise⟩ | ⟨hfree, map, -, hraise⟩ := raiseWithin_cases depth alert now sink
  · rw [hraise]
    refine iff_of_false ?_ fun h => hfree h.1
    simp
  · rw [hraise, queue_trySend]
    by_cases hroom : sink.queue.length < depth
    · exact iff_of_true (if_pos hroom) ⟨hfree, hroom⟩
    · refine iff_of_false ?_ fun h => hroom h.2
      simp [hroom]

theorem queue_raiseWithin_of_full {depth : ℕ} {sink : AlertSink} (h : depth ≤ sink.queue.length)
    (alert : Alert) (now : ℕ) : (sink.raiseWithin depth alert now).queue = sink.queue := by
  obtain ⟨-, hraise⟩ | ⟨-, map, -, hraise⟩ := raiseWithin_cases depth alert now sink
  · rw [hraise]
  · rw [hraise, queue_trySend]
    exact if_neg (not_lt.mpr h)

theorem cooldown_raiseWithin (depth : ℕ) (alert : Alert) (now : ℕ) (sink : AlertSink) :
    (sink.raiseWithin depth alert now).cooldown =
      (sink.takeCooldownSlot alert.kind alert.subject now).2.cooldown ∧
    (sink.raiseWithin depth alert now).cooldownFor = sink.cooldownFor := by
  obtain ⟨hfree, hraise⟩ | ⟨-, map, hslot, hraise⟩ := raiseWithin_cases depth alert now sink
  · obtain ⟨-, hslot⟩ | ⟨hpassed, -⟩ := takeCooldownSlot_cases alert.kind alert.subject now sink
    · rw [hraise, hslot]
      exact ⟨rfl, rfl⟩
    · exact absurd hpassed hfree
  · rw [hraise, hslot, trySend]
    split <;> exact ⟨rfl, rfl⟩

end AlertSink

/-! ### The log of slots -/

/-- A slot taken, and whether the queue had room for the alert. -/
abbrev Slot := Row (Str × Str) Bool

/-- The sink with a log that forgets no slot. -/
structure Watch where
  sink : AlertSink
  slots : List Slot
  clock : ℕ

def AlertSink.slot (depth : ℕ) (alert : Alert) (now : ℕ) (sink : AlertSink) : Slot :=
  ⟨alert.key, sink.queue.length < depth, now⟩

def Watch.step (depth : ℕ) (e : Event) (w : Watch) : Watch :=
  match e with
  | .raise alert now =>
    { sink := w.sink.raiseWithin depth alert now
      slots := if (w.sink.takeCooldownSlot alert.kind alert.subject now).1 then
        w.slots ++ [w.sink.slot depth alert now] else w.slots
      clock := now }
  | .drain => { w with sink := w.sink.recv.2 }

/-- The map decides as the log would, from now on. -/
structure Tracks (period : ℕ) (w : Watch) : Prop where
  period_eq : w.sink.cooldownFor = period
  past : ∀ r ∈ w.slots, r.time ≤ w.clock
  free : ∀ key now, w.clock ≤ now →
    (w.sink.Free key now ↔ ∀ r ∈ w.slots, r.key = key → r.time + period ≤ now)
  spaced : Spaced (fun _ : Bool => ()) period w.slots

theorem tracks_unused (period : ℕ) : Tracks period ⟨.unused period, [], 0⟩ := by
  refine ⟨rfl, fun r hr => ?_, fun key now _ => ?_, fun key => List.isChain_nil⟩
  · cases hr
  · refine iff_of_true (fun last hlast => ?_) fun r hr => ?_
    · cases hlast
    · cases hr

theorem free_raiseWithin_of_free {depth : ℕ} {alert : Alert} {now : ℕ} {sink : AlertSink}
    (hfree : sink.Free alert.key now) {key : Str × Str} {t : ℕ} (ht : now ≤ t) :
    (sink.raiseWithin depth alert now).Free key t ↔
      if key = alert.key then now + sink.cooldownFor ≤ t else sink.Free key t := by
  obtain ⟨hmap, hperiod⟩ := AlertSink.cooldown_raiseWithin depth alert now sink
  obtain ⟨hnot, -⟩ | ⟨-, map, hslot, hself, hother⟩ :=
    AlertSink.takeCooldownSlot_cases alert.kind alert.subject now sink
  · exact absurd hfree hnot
  · rw [AlertSink.Free, hmap, hperiod, hslot]
    split
    · next hkey =>
      rw [hkey]
      show (∀ last ∈ map.lookup (alert.kind, alert.subject), _) ↔ _
      rw [hself]
      simp only [Option.mem_some_iff, forall_eq']
      omega
    · next hkey =>
      obtain hsame | ⟨hnone, hpassed⟩ := hother key hkey
      · show (∀ last ∈ map.lookup key, _) ↔ _
        rw [hsame, AlertSink.Free]
      · refine iff_of_true (fun last hlast => ?_) fun last hlast => ?_
        · rw [show map.lookup key = none from hnone] at hlast
          cases hlast
        · have hage := hpassed last hlast
          omega

theorem raiseWithin_of_not_free {depth : ℕ} {alert : Alert} {now : ℕ} {sink : AlertSink}
    (h : ¬ sink.Free alert.key now) : sink.raiseWithin depth alert now = sink := by
  obtain ⟨-, hraise⟩ | ⟨hfree, -⟩ := AlertSink.raiseWithin_cases depth alert now sink
  · exact hraise
  · exact absurd hfree h

theorem tracks_raise {period : ℕ} {w : Watch} (h : Tracks period w) (depth : ℕ) (alert : Alert)
    {now : ℕ} (hnow : w.clock ≤ now) : Tracks period (w.step depth (.raise alert now)) := by
  by_cases hfree : w.sink.Free alert.key now
  · have hslots : (w.step depth (.raise alert now)).slots =
        w.slots ++ [w.sink.slot depth alert now] := if_pos (AlertSink.slot_iff.mpr hfree)
    have hdue : Due (fun _ : Bool => ()) period (latest alert.key w.slots)
        (w.sink.slot depth alert now) := by
      intro l hl
      obtain ⟨hmem, hkey⟩ := mem_of_latest hl
      exact .inr ((h.free alert.key now hnow).mp hfree l hmem hkey)
    refine ⟨?_, fun r hr => ?_, fun key t ht => ?_, ?_⟩
    · exact (AlertSink.cooldown_raiseWithin depth alert now w.sink).2.trans h.period_eq
    · rw [hslots, List.mem_append, List.mem_singleton] at hr
      obtain hr | rfl := hr
      · exact (h.past r hr).trans hnow
      · exact le_rfl
    · refine (free_raiseWithin_of_free hfree ht).trans ?_
      rw [hslots, List.forall_mem_append, List.forall_mem_singleton, h.period_eq]
      show _ ↔ _ ∧ (alert.key = key → now + period ≤ t)
      by_cases hkey : key = alert.key
      · rw [if_pos hkey]
        refine ⟨fun hpassed => ⟨fun r hr _ => ?_, fun _ => hpassed⟩, fun hall => hall.2 hkey.symm⟩
        -- what was taken before has been free since
        have hpast := (h.free alert.key now hnow).mp hfree r hr
        have hage : now ≤ t := ht
        have := hpast ((‹r.key = key›).trans hkey)
        omega
      · rw [if_neg hkey, h.free key t (hnow.trans ht)]
        exact ⟨fun hall => ⟨hall, fun heq => absurd heq.symm hkey⟩, fun hall => hall.1⟩
    · rw [hslots, ← record_of_due hdue]
      exact spaced_record _ h.spaced
  · have hslots : (w.step depth (.raise alert now)).slots = w.slots :=
      if_neg fun hslot => hfree (AlertSink.slot_iff.mp hslot)
    have hsink : (w.step depth (.raise alert now)).sink = w.sink := raiseWithin_of_not_free hfree
    refine ⟨?_, fun r hr => ?_, fun key t ht => ?_, ?_⟩
    · rw [hsink]
      exact h.period_eq
    · rw [hslots] at hr
      exact (h.past r hr).trans hnow
    · rw [hsink, hslots]
      exact h.free key t (hnow.trans ht)
    · rw [hslots]
      exact h.spaced

theorem tracks_step {period : ℕ} {w : Watch} (h : Tracks period w) (depth : ℕ) {e : Event}
    (htime : ∀ t ∈ e.time, w.clock ≤ t) : Tracks period (w.step depth e) := by
  cases e with
  | raise alert now => exact tracks_raise h depth alert (htime now rfl)
  | drain => exact ⟨h.period_eq, h.past, h.free, h.spaced⟩

/-! ### Runs -/

/-- No clock runs backwards. -/
def Ordered (events : List Event) : Prop := (events.filterMap Event.time).Pairwise (· ≤ ·)

theorem along_of_ordered (depth : ℕ) {events : List Event} (h : Ordered events) {w : Watch}
    (hfirst : ∀ t ∈ events.filterMap Event.time, w.clock ≤ t) :
    Along (Watch.step depth) (fun e w => ∀ t ∈ e.time, w.clock ≤ t) events w := by
  induction events generalizing w with
  | nil => trivial
  | cons e events ih =>
    cases e with
    | raise alert now =>
      obtain ⟨hlater, hrest⟩ := List.pairwise_cons.mp h
      refine ⟨fun t ht => hfirst t ?_, ih hrest hlater⟩
      cases ht
      exact List.mem_cons_self
    | drain =>
      refine ⟨fun t ht => ?_, ih h hfirst⟩
      cases ht

theorem tracks_run {period : ℕ} {w : Watch} (h : Tracks period w) (depth : ℕ)
    {events : List Event} (hordered : Ordered events)
    (hfirst : ∀ t ∈ events.filterMap Event.time, w.clock ≤ t) :
    Tracks period (run (Watch.step depth) events w) :=
  (along_of_ordered depth hordered hfirst).invariant
    (I := Tracks period) (fun _ _ htime hw => tracks_step hw depth htime) h

theorem sink_run (depth : ℕ) (events : List Event) (w : Watch) :
    (run (Watch.step depth) events w).sink = run (Event.exec depth) events w.sink := by
  induction events generalizing w with
  | nil => rfl
  | cons e events ih =>
    rw [run_cons, run_cons, ih]
    cases e <;> rfl

theorem raised_concat {depth : ℕ} {P : Alert → ℕ → AlertSink → Prop} {sink : AlertSink}
    {events : List Event} {e : Event} {key : Str × Str} {t : ℕ} :
    Raised depth P sink (events ++ [e]) key t ↔
      Raised depth P sink events key t ∨
        ∃ alert, e = .raise alert t ∧ alert.key = key ∧
          P alert t (run (Event.exec depth) events sink) := by
  constructor
  · rintro ⟨pre, alert, post, hsplit, hkey, hP⟩
    obtain rfl | ⟨post, e', rfl⟩ := List.eq_nil_or_concat post
    · obtain ⟨rfl, he⟩ := List.append_inj' hsplit rfl
      exact .inr ⟨alert, List.singleton_inj.mp he, hkey, hP⟩
    · rw [List.concat_eq_append, ← List.cons_append, ← List.append_assoc] at hsplit
      exact .inl ⟨pre, alert, post, (List.append_inj' hsplit rfl).1, hkey, hP⟩
  · rintro (⟨pre, alert, post, rfl, hkey, hP⟩ | ⟨alert, rfl, hkey, hP⟩)
    · exact ⟨pre, alert, post ++ [e], by simp, hkey, hP⟩
    · exact ⟨events, alert, [], rfl, hkey, hP⟩

/-- The log holds the slots that have been taken. -/
theorem mem_slots (depth : ℕ) (events : List Event) (w : Watch) (hnone : w.slots = [])
    {key : Str × Str} {room : Bool} {t : ℕ} :
    (⟨key, room, t⟩ : Slot) ∈ (run (Watch.step depth) events w).slots ↔
      Raised depth (fun alert t sink =>
        sink.Free alert.key t ∧ decide (sink.queue.length < depth) = room) w.sink events key t := by
  induction events using List.reverseRecOn with
  | nil =>
    refine iff_of_false (fun h => ?_) fun ⟨pre, alert, post, hsplit, _⟩ => ?_
    · rw [run_nil, hnone] at h
      cases h
    · simp at hsplit
  | append_singleton events e ih =>
    rw [run_append, raised_concat, ← ih, ← sink_run]
    generalize run (Watch.step depth) events w = w'
    cases e with
    | drain =>
      refine ⟨.inl, fun h => h.resolve_right ?_⟩
      rintro ⟨alert, he, -⟩
      cases he
    | raise alert now =>
      rw [run_cons, run_nil, Watch.step]
      by_cases hfree : w'.sink.Free alert.key now
      · rw [if_pos (AlertSink.slot_iff.mpr hfree), List.mem_append, List.mem_singleton]
        refine or_congr_right ⟨fun h => ?_, ?_⟩
        · obtain ⟨hkey, hroom, rfl⟩ := Row.mk.inj h
          exact ⟨alert, rfl, hkey.symm, hfree, hroom.symm⟩
        · rintro ⟨alert, he, rfl, -, rfl⟩
          cases he
          rfl
      · rw [if_neg fun hslot => hfree (AlertSink.slot_iff.mp hslot)]
        refine ⟨.inl, fun h => h.resolve_right ?_⟩
        rintro ⟨alert, he, -, hfree', -⟩
        cases he
        exact hfree hfree'

theorem raised_congr {depth : ℕ} {P Q : Alert → ℕ → AlertSink → Prop}
    (h : ∀ alert t sink, P alert t sink ↔ Q alert t sink) {sink : AlertSink}
    {events : List Event} {key : Str × Str} {t : ℕ} :
    Raised depth P sink events key t ↔ Raised depth Q sink events key t := by
  simp only [Raised, h]

/-- Two slots of one key are a cooldown apart. -/
theorem Tracks.apart {period : ℕ} {w : Watch} (h : Tracks period w) {r r' : Slot}
    (hr : r ∈ w.slots) (hr' : r' ∈ w.slots) (hkey : r.key = r'.key) (hne : r ≠ r') :
    r.time + period ≤ r'.time ∨ r'.time + period ≤ r.time := by
  let Apart (r r' : Slot) : Prop := r.time + period ≤ r'.time ∨ r'.time + period ≤ r.time
  have : Std.Symm Apart := ⟨fun _ _ => Or.symm⟩
  have hapart : (ofKey r'.key w.slots).Pairwise Apart :=
    (pairwise_steady (h.spaced r'.key) fun _ _ => rfl).imp Or.inl
  have hmem : r ∈ ofKey r'.key w.slots := List.mem_filter.mpr ⟨hr, decide_eq_true hkey⟩
  have hmem' : r' ∈ ofKey r'.key w.slots := List.mem_filter.mpr ⟨hr', decide_eq_true rfl⟩
  exact hapart.forall hmem hmem' hne

/-- What the log says when an alert is raised. -/
theorem exists_watch (depth cooldownFor : ℕ) {events pre post : List Event} {alert : Alert}
    {now : ℕ} (h : Ordered events) (hsplit : events = pre ++ .raise alert now :: post) :
    ∃ w, Tracks cooldownFor w ∧ w.clock ≤ now ∧
      w.sink = run (Event.exec depth) pre (.unused cooldownFor) ∧
      (∀ key t, (⟨key, true, t⟩ : Slot) ∈ w.slots ↔
        Raised depth (AlertSink.Enters depth) (.unused cooldownFor) pre key t) ∧
      ∀ key t, (⟨key, false, t⟩ : Slot) ∈ w.slots ↔
        Raised depth (AlertSink.Loses depth) (.unused cooldownFor) pre key t := by
  let w₀ : Watch := ⟨.unused cooldownFor, [], 0⟩
  have hfirst : ∀ events : List Event, ∀ t ∈ events.filterMap Event.time, w₀.clock ≤ t :=
    fun _ t _ => Nat.zero_le t
  have hpre : Ordered pre := by
    rw [Ordered, hsplit, List.filterMap_append] at h
    exact (List.pairwise_append.mp h).1
  refine ⟨run (Watch.step depth) pre w₀, ?_, ?_, sink_run depth pre w₀, fun key t => ?_,
    fun key t => ?_⟩
  · exact tracks_run (tracks_unused cooldownFor) depth hpre (hfirst pre)
  · have halong := along_of_ordered depth h (hfirst events)
    exact along_iff_forall_split.mp halong pre (.raise alert now) post hsplit now rfl
  · rw [mem_slots depth pre w₀ rfl]
    refine raised_congr fun alert t sink => ?_
    rw [AlertSink.enters_iff, decide_eq_true_iff]
  · rw [mem_slots depth pre w₀ rfl]
    refine raised_congr fun alert t sink => ?_
    rw [AlertSink.Loses, AlertSink.slot_iff, decide_eq_false_iff_not, not_lt]

theorem DeliveredFirst.lossless {depth cooldownFor : ℕ} {events : List Event}
    (hdelivered : DeliveredFirst depth (.unused cooldownFor) events) (h : Ordered events) :
    Lossless depth (.unused cooldownFor) events := by
  intro pre alert now post hsplit hroom t hlost
  obtain ⟨w, hw, hclock, hsink, hentered, hdropped⟩ := exists_watch depth cooldownFor h hsplit
  have hslot := (hdropped alert.key t).mpr hlost
  show t + cooldownFor ≤ now
  by_contra hsoon
  have hstays : ¬ (run (Event.exec depth) pre (.unused cooldownFor)).Enters depth alert now := by
    rw [AlertSink.enters_iff, ← hsink, hw.free alert.key now hclock]
    exact fun henters => hsoon (henters.1 _ hslot rfl)
  obtain hfull | ⟨t', hraised, hsoon'⟩ := hdelivered.justified pre alert now post hsplit hstays
  · omega
  · -- a delivered alert would be a cooldown away from the dropped one
    have hslot' := (hentered alert.key t').mpr hraised
    have hpast : t ≤ w.clock := hw.past _ hslot
    have hpast' : t' ≤ w.clock := hw.past _ hslot'
    have hsoon' : now < t' + cooldownFor := hsoon'
    obtain hlater | hlater : t + cooldownFor ≤ t' ∨ t' + cooldownFor ≤ t :=
      hw.apart hslot hslot' rfl fun heq => by cases heq
    · omega
    · omega

theorem Lossless.deliveredFirst {depth cooldownFor : ℕ} {events : List Event}
    (hlossless : Lossless depth (.unused cooldownFor) events) (h : Ordered events) :
    DeliveredFirst depth (.unused cooldownFor) events := by
  constructor
  · intro pre alert now post hsplit hstays
    obtain ⟨w, hw, hclock, hsink, hentered, hdropped⟩ := exists_watch depth cooldownFor h hsplit
    rw [AlertSink.enters_iff, not_and, not_lt] at hstays
    by_cases hfree : (run (Event.exec depth) pre (.unused cooldownFor)).Free alert.key now
    · exact .inl (hstays hfree)
    · rw [← hsink, hw.free alert.key now hclock] at hfree
      push Not at hfree
      obtain ⟨⟨key, room, t⟩, hslot, rfl, hsoon⟩ := hfree
      cases room with
      | true => exact .inr ⟨t, (hentered _ t).mp hslot, hsoon⟩
      | false =>
        -- an alert that suppresses although it was dropped
        refine .inl (not_lt.mp fun hroom => ?_)
        have hlate := hlossless pre alert now post hsplit hroom t ((hdropped _ t).mp hslot)
        exact absurd hlate (not_le.mpr hsoon)
  · intro pre alert now post hsplit henters t hraised
    obtain ⟨w, hw, hclock, hsink, hentered, -⟩ := exists_watch depth cooldownFor h hsplit
    rw [AlertSink.enters_iff, ← hsink, hw.free alert.key now hclock] at henters
    exact henters.1 _ ((hentered alert.key t).mpr hraised) rfl

/-- An alert is suppressed only by a delivered one exactly if none comes within the cooldown of
a dropped one. -/
theorem deliveredFirst_iff (depth cooldownFor : ℕ) {events : List Event} (h : Ordered events) :
    DeliveredFirst depth (.unused cooldownFor) events ↔
      Lossless depth (.unused cooldownFor) events :=
  ⟨fun hdelivered => hdelivered.lossless h, fun hlossless => hlossless.deliveredFirst h⟩

def hour : ℕ := 60 * 60 * 10 ^ 9

def stormAlert (client : Ipv4Addr) : Alert := .nxdomainStorm client.toText 200 10

def repeated : List Event :=
  [.raise (stormAlert (Ipv4Addr.ofOctets 192 168 1 5)) 0,
    .raise (stormAlert (Ipv4Addr.ofOctets 192 168 1 5)) (60 * 10 ^ 9)]

theorem deliveredFirst_iff_repeated : DeliveredFirst queueDepth (.unused hour) repeated := by
  have hordered : Ordered repeated := by
    rw [Ordered]
    decide
  refine (deliveredFirst_iff queueDepth hour hordered).mpr ?_
  rintro pre alert now post hsplit - t ⟨pre', alert', post', hpre, -, -, hfull⟩
  have hlength := congrArg List.length hsplit
  have hlength' := congrArg List.length hpre
  rw [repeated, List.length_append, List.length_cons] at hlength
  rw [List.length_append, List.length_cons] at hlength'
  -- only the first of the two alerts comes before another, and it finds the queue empty
  have hnil : pre' = [] := List.length_eq_zero_iff.mp (by simp at hlength; omega)
  rw [hnil] at hfull
  exact absurd hfull (by decide)

/-! ### A scan with many offenders -/

/-- One round of `storm_watcher`. -/
def scan (clients : List Ipv4Addr) (now : ℕ) : List Event :=
  clients.map fun client => .raise (stormAlert client) now

theorem run_fresh (depth now : ℕ) {alerts : List Alert} {sink : AlertSink}
    (hnodup : (alerts.map Alert.key).Nodup) (hfresh : ∀ a ∈ alerts, a.key ∉ sink.cooldown)
    (hroom : sink.queue.length + alerts.length ≤ depth) :
    (run (Event.exec depth) (alerts.map (.raise · now)) sink).queue = sink.queue ++ alerts ∧
      ∀ key ∈ (run (Event.exec depth) (alerts.map (.raise · now)) sink).cooldown,
        key ∈ alerts.map Alert.key ∨ key ∈ sink.cooldown := by
  induction alerts generalizing sink with
  | nil => exact ⟨(List.append_nil _).symm, fun key hkey => .inr hkey⟩
  | cons a alerts ih =>
    rw [List.length_cons] at hroom
    obtain ⟨hnot, hnodup⟩ := List.nodup_cons.mp hnodup
    have hraise : Event.exec depth (.raise a now) sink = sink.raise a now :=
      AlertSink.raiseWithin_of_room (by omega) a now
    have hqueue : (sink.raise a now).queue = sink.queue ++ [a] :=
      AlertSink.queue_raise_of_fresh (hfresh a List.mem_cons_self) now
    have hlater : ∀ b ∈ alerts, b.key ∉ (sink.raise a now).cooldown := by
      intro b hb hmem
      obtain heq | hold := AlertSink.mem_cooldown_raise hmem
      · exact hnot (List.mem_map.mpr ⟨b, hb, heq⟩)
      · exact hfresh b (List.mem_cons_of_mem a hb) hold
    have hlength : (sink.raise a now).queue.length + alerts.length ≤ depth := by
      rw [hqueue, List.length_append, List.length_singleton]
      omega
    obtain ⟨hall, hkeys⟩ := ih hnodup hlater hlength
    rw [List.map_cons, run_cons, hraise]
    refine ⟨?_, fun key hkey => ?_⟩
    · rw [hall, hqueue, List.append_assoc, List.singleton_append]
    · obtain hmem | hmem := hkeys key hkey
      · exact .inl (List.mem_cons_of_mem _ hmem)
      · obtain rfl | hold := AlertSink.mem_cooldown_raise hmem
        · exact .inl List.mem_cons_self
        · exact .inr hold

/-- As many clients of the local network as one likes. -/
def offender (i : ℕ) : Ipv4Addr := Ipv4Addr.ofOctets 10 0 (i / 256) (i % 256)

def offenders (n : ℕ) : List Ipv4Addr := (List.range n).map offender

theorem nodup_offenders {n : ℕ} (hn : n ≤ 2 ^ 16) : (offenders n).Nodup := by
  refine List.Nodup.map_on (fun i hi j hj heq => ?_) List.nodup_range
  have hi := List.mem_range.mp hi
  have hj := List.mem_range.mp hj
  have htoNat := congrArg BitVec.toNat heq
  simp only [offender, Ipv4Addr.ofOctets, BitVec.toNat_ofNat] at htoNat
  omega

def storm (i : ℕ) : Alert := stormAlert (offender i)

theorem nodup_storms {n : ℕ} (hn : n ≤ 2 ^ 16) :
    (((List.range n).map storm).map Alert.key).Nodup := by
  have hinj : Function.Injective fun client => (stormAlert client).key :=
    fun a b heq => Ipv4Addr.toText_inj (Prod.mk.inj heq).2
  have hnodup := (nodup_offenders hn).map hinj
  rw [offenders, List.map_map] at hnodup
  rwa [List.map_map]

theorem run_scan (depth cooldownFor now : ℕ) {n : ℕ} (hn : n < 2 ^ 16) (hdepth : n ≤ depth) :
    (run (Event.exec depth) (scan (offenders n) now) (.unused cooldownFor)).queue.length = n ∧
      (storm n).key ∉
        (run (Event.exec depth) (scan (offenders n) now) (.unused cooldownFor)).cooldown := by
  have hscan : scan (offenders n) now = ((List.range n).map storm).map (.raise · now) := by
    rw [scan, offenders, List.map_map, List.map_map]
    rfl
  have hnodup := nodup_storms (Nat.succ_le_of_lt hn)
  rw [List.range_succ, List.map_append, List.map_append, List.nodup_append] at hnodup
  have hlength : ((List.range n).map storm).length = n := by
    rw [List.length_map, List.length_range]
  have hfresh : ∀ a ∈ (List.range n).map storm,
      a.key ∉ (AlertSink.unused cooldownFor).cooldown := by
    intro a _ hmem
    cases hmem
  have hroom : (AlertSink.unused cooldownFor).queue.length + ((List.range n).map storm).length ≤
      depth := by
    rw [hlength]
    exact (Nat.zero_add n).trans_le hdepth
  obtain ⟨hqueue, hkeys⟩ := run_fresh depth now hnodup.1 hfresh hroom
  rw [hscan]
  refine ⟨?_, fun hmem => ?_⟩
  · rw [hqueue, List.length_append, hlength]
    exact Nat.zero_add n
  · obtain hold | hnone := hkeys _ hmem
    · exact hnodup.2.2 _ hold _ (List.mem_singleton_self _) rfl
    · cases hnone

/-- A scan that finds a client more than the queue takes, and another one a minute later. -/
def crowded : List Event :=
  scan (offenders 257) 0 ++ [.drain, .raise (storm 256) (60 * 10 ^ 9)]

theorem scan_offenders_succ (n now : ℕ) :
    scan (offenders (n + 1)) now = scan (offenders n) now ++ [.raise (storm n) now] := by
  rw [scan, scan, offenders, offenders, List.range_succ, List.map_append, List.map_append]
  rfl

/-- The client that did not fit is suppressed when there is room for it. -/
theorem not_deliveredFirst : Ordered crowded ∧
    ¬ DeliveredFirst queueDepth (.unused hour) crowded := by
  have hordered : Ordered crowded := by
    rw [Ordered]
    decide +kernel
  refine ⟨hordered, fun hdelivered => ?_⟩
  obtain ⟨hlength, hfresh⟩ := run_scan queueDepth hour 0 (n := 256) (by decide) le_rfl
  have hscan : scan (offenders 257) 0 = scan (offenders 256) 0 ++ [.raise (storm 256) 0] :=
    scan_offenders_succ 256 0
  have hlost : Raised queueDepth (AlertSink.Loses queueDepth) (.unused hour)
      (scan (offenders 257) 0 ++ [.drain]) (storm 256).key 0 := by
    refine ⟨scan (offenders 256) 0, storm 256, [.drain], ?_, rfl, ?_, hlength.ge⟩
    · rw [hscan, List.append_assoc]
      rfl
    · rw [AlertSink.slot_iff]
      intro last hlast
      rw [AList.lookup_eq_none.mpr hfresh] at hlast
      cases hlast
  have hroom : (run (Event.exec queueDepth) (scan (offenders 257) 0 ++ [.drain])
      (.unused hour)).queue.length < queueDepth := by
    have hfull : queueDepth ≤ _ := hlength.ge
    rw [hscan, run_append, run_append, run_cons, run_nil, run_cons, run_nil, Event.exec, Event.exec,
      AlertSink.recv]
    dsimp only
    rw [AlertSink.queue_raiseWithin_of_full hfull, List.length_tail, hlength]
    decide
  have hsplit : crowded =
      scan (offenders 257) 0 ++ [.drain] ++ [.raise (storm 256) (60 * 10 ^ 9)] := by
    rw [crowded, List.append_assoc, List.singleton_append]
  have hlate := hdelivered.lossless hordered _ (storm 256) (60 * 10 ^ 9) [] hsplit hroom 0 hlost
  exact absurd hlate (by decide)

end Netwatch.Alerts
