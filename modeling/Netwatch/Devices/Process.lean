import Netwatch.Alerts.Delivery
import Netwatch.Db.Sightings
import Netwatch.Devices.NewDevice
import Netwatch.Devices.Ownership

/-!
# The registry and the writer

What a call persists is handed to the writer and reaches the table with a later transaction. A
row is lost if the channel is full or the transaction fails, and whatever is still on its way
when the program stops is lost as well. Where nothing is lost, the table is in the end the one
that the calls would have written themselves.

## Main definitions

- `Process` — a registry and the pipeline to the database, in one run of the program
- `Happening` — what goes on in a run, and the end of it
- `Happening.Saves` — no row of a device is lost

## Main results

- `matches_react` — a registry whose rows are written at once goes with it
-/

namespace Netwatch

open RustStd Interleaving

namespace Db

/-! ### The rows of devices that are on their way -/

theorem devices_execute_of_counter {op : WriteOp} (h : op.counter ≠ .devices) (t : Tables) :
    (t.execute op).devices = t.devices := by
  refine Tables.devices_execute_of_ne_device (fun d hd => h ?_) t
  rw [hd]
  rfl

/-- Other ops leave the devices alone. -/
theorem devices_executeAll_of_sightings {ops : List WriteOp} (h : sightings ops = [])
    (t : Tables) : (t.executeAll ops).devices = t.devices := by
  induction ops generalizing t with
  | nil => rfl
  | cons op ops ih =>
    rw [sightings, List.filterMap_eq_nil_iff, List.forall_mem_cons] at h
    refine (ih (List.filterMap_eq_nil_iff.mpr h.2) (t.execute op)).trans
      (Tables.devices_execute_of_ne_device (fun d hd => ?_) t)
    rw [hd] at h
    cases h.1

namespace Pipeline

variable {ι : Type}

/-- The tables once everything that is on its way has been written. -/
def drained (s : Pipeline ι) : Tables := s.tables.executeAll (s.inFlight.map Handed.op)

theorem drained_of_same {s s' : Pipeline ι} (htables : s'.tables = s.tables)
    (hfly : s'.inFlight = s.inFlight) : s'.drained = s.drained := by
  rw [drained, htables, hfly, drained]

theorem drained_send {s : Pipeline ι} (hopen : s.producersGone = false) (producer : ι)
    (op : WriteOp) (hroom : s.queue.length < queueDepth) :
    (step (.send producer op) s).drained = s.drained.execute op := by
  rw [step, hopen, if_neg Bool.false_ne_true, send, if_pos hroom, drained, drained]
  simp only [inFlight, List.map_append, Tables.executeAll, List.foldl_append, List.map_cons,
    List.map_nil, List.foldl_cons, List.foldl_nil]

theorem drained_receive (s : Pipeline ι) : s.receive.drained = s.drained := by
  rw [receive]
  split
  · split <;> rfl
  · next hq => exact drained_of_same rfl (by simp [inFlight, push, hq])
  · next hq => exact drained_of_same rfl (by simp [inFlight, push, hq])
  · rfl

/-- A batch that goes with a failed flush is as good as never sent, if it has no device. -/
theorem devices_drained_flushBatch {fails : ℕ → Bool} {s : Pipeline ι}
    (hsaved : (flush fails s.tables (s.pending.map Handed.op)).1 = false →
      sightings (s.pending.map Handed.op) = []) :
    (s.flushBatch fails).drained.devices = s.drained.devices := by
  have hsplit : s.drained =
      (s.tables.executeAll (s.pending.map Handed.op)).executeAll (s.queue.map Handed.op) := by
    rw [drained, inFlight, List.map_append, Tables.executeAll, List.foldl_append]
    rfl
  have hafter : (s.flushBatch fails).drained =
      (flush fails s.tables (s.pending.map Handed.op)).2.executeAll (s.queue.map Handed.op) := rfl
  rw [hsplit, hafter]
  refine Tables.devices_executeAll_congr ?_ _
  obtain hflush | hflush := flush_cases fails s.tables (s.pending.map Handed.op)
  · rw [hflush] at hsaved ⊢
    exact (devices_executeAll_of_sightings (hsaved rfl) s.tables).symm
  · rw [hflush]

/-- A step of the thread that loses no row of a device. -/
theorem devices_drained_thread {a : WriterAct ι} (ha : Alerts.OfThread a) {s : Pipeline ι}
    (hsaved : sightings ((discarded a s).map Handed.op) = []) :
    (step a s).drained.devices = s.drained.devices := by
  cases a with
  | send producer op => cases ha
  | hangUp => cases ha
  | receive => exact congrArg Tables.devices (drained_receive s)
  | deadline =>
    rw [step]
    split <;> rfl
  | flush fails =>
    rw [step]
    by_cases hphase : s.phase = .flushing
    · rw [if_pos hphase]
      refine devices_drained_flushBatch fun hfst => ?_
      rwa [discarded, if_pos ⟨hphase, hfst⟩] at hsaved
    · rw [if_neg hphase]
  | prune now retentionDays done =>
    rw [step]
    split
    · exact Tables.devices_executeAll_congr (devices_prune now retentionDays done s.tables) _
    · rfl

end Pipeline

end Db

namespace Devices

/-- The registry and its way to the table. -/
structure Process (ι : Type) where
  inner : Inner
  pipeline : Db.Pipeline (Option ι)

/-- What goes on in one run of the program. -/
inductive Move (ι : Type)
  | call (c : Call) (now : ℕ) (ts : ℤ)
  /-- Only the registry sends devices to the writer. -/
  | other (producer : ι) (op : { op : Db.WriteOp // op.counter ≠ .devices })
  | thread (a : { a : Db.WriterAct (Option ι) // Alerts.OfThread a })

inductive Happening (ι : Type)
  | move (m : Move ι)
  /-- The program stops and is started again; what it knew may turn out unreadable. -/
  | restart (readable : Bool) (now : ℕ)

section

variable {ι : Type}

/-- What a call persists is handed to the writer before the next call. -/
def handedOver (write : Option Device) (ts : ℤ) (p : Db.Pipeline (Option ι)) :
    Db.Pipeline (Option ι) :=
  match write with
  | some d => Db.Pipeline.step (.send none (.device (persist d ts))) p
  | none => p

namespace Process

/-- `main` starts a new writer and hydrates a new registry from the database, or goes on with an
empty one if it cannot read the devices. -/
def boot (store : DeviceStore) (readable : Bool) (t : Db.Tables) (now : ℕ) : Process ι :=
  let inner := if readable then (store.hydrate (Db.knownDevices t) now .empty).2 else .empty
  ⟨inner, { tables := t }⟩

def step (store : DeviceStore) (m : Move ι) (p : Process ι) : Process ι :=
  match m with
  | .call c now ts =>
    let (inner, outcome) := c.exec store now p.inner
    ⟨inner, handedOver outcome.write ts p.pipeline⟩
  | .other producer op =>
    { p with pipeline := Db.Pipeline.step (.send (some producer) op.1) p.pipeline }
  | .thread a => { p with pipeline := Db.Pipeline.step a.1 p.pipeline }

/-- The channel and the batch are lost with the process. -/
def react (store : DeviceStore) (e : Happening ι) (p : Process ι) : Process ι :=
  match e with
  | .move m => p.step store m
  | .restart readable now => boot store readable p.pipeline.tables now

/-- No row of a device is on its way. -/
def Settled (p : Process ι) : Prop :=
  Db.sightings (p.pipeline.inFlight.map Db.Handed.op) = []

end Process

/-- The channel has room for the row of a call, and no row goes with a failed flush. -/
def Move.Saves (store : DeviceStore) (m : Move ι) (p : Process ι) : Prop :=
  match m with
  | .call c now _ => (c.exec store now p.inner).2.write.isSome = true →
      p.pipeline.queue.length < Db.queueDepth
  | .other _ _ => True
  | .thread a => Db.sightings ((Db.Pipeline.discarded a.1 p.pipeline).map Db.Handed.op) = []

/-- No row of a device is lost, and what was written is read again. -/
def Happening.Saves (store : DeviceStore) (e : Happening ι) (p : Process ι) : Prop :=
  match e with
  | .move m => m.Saves store p
  | .restart readable _ => readable = true ∧ p.Settled

def Move.event? : Move ι → Option Event
  | .call c now ts => some (.call c now ts)
  | .other _ _ => none
  | .thread _ => none

/-- What goes on in a registry whose rows are written at once. -/
def Happening.event? : Happening ι → Option Event
  | .move m => m.event?
  | .restart _ now => some (.restart now)

/-! ### Rows that are written at once -/

theorem Registered.of_devices_eq {t t' : Db.Tables} (h : Registered t)
    (heq : t'.devices = t.devices) : Registered t' where
  canonical m hm := h.canonical m (heq ▸ hm)
  text m ip hip := h.text m ip (by rwa [Db.Tables.ipOf, heq] at hip)
  oneHolder := Db.Tables.oneHolder_of_devices_eq heq h.oneHolder

namespace Process

/-- The registries are the same, and so are the devices once everything is written. -/
structure Matches (p : Process ι) (st : Site) : Prop where
  isOpen : p.pipeline.producersGone = false
  inner : st.inner = p.inner
  devices : st.tables.devices = p.pipeline.drained.devices

theorem matches_boot (store : DeviceStore) {t t' : Db.Tables} (h : t'.devices = t.devices)
    (now : ℕ) : Matches (boot store true t now : Process ι) (Site.boot store t' now) where
  isOpen := rfl
  inner := by rw [Site.boot, boot, if_pos rfl, Db.knownDevices, Db.knownDevices, h]
  devices := h

theorem Matches.devices_of_settled {p : Process ι} {st : Site} (h : Matches p st)
    (hsettled : p.Settled) : st.tables.devices = p.pipeline.tables.devices :=
  h.devices.trans (Db.devices_executeAll_of_sightings hsettled p.pipeline.tables)

/-- A row that is handed over is applied once everything is written. -/
theorem drained_handedOver {p : Db.Pipeline (Option ι)} (hopen : p.producersGone = false)
    {write : Option Device} (hroom : write.isSome = true → p.queue.length < Db.queueDepth)
    (ts : ℤ) : (handedOver write ts p).producersGone = false ∧
      (handedOver write ts p).drained = applied write ts p.drained := by
  cases write with
  | none => exact ⟨hopen, rfl⟩
  | some d =>
    rw [handedOver, Db.Pipeline.drained_send hopen none _ (hroom rfl), applied_some]
    refine ⟨?_, rfl⟩
    rw [Db.Pipeline.step, hopen, if_neg Bool.false_ne_true, Db.Pipeline.send, if_pos (hroom rfl)]
    exact hopen

theorem devices_applied_congr {t t' : Db.Tables} (h : t.devices = t'.devices)
    (write : Option Device) (ts : ℤ) :
    (applied write ts t).devices = (applied write ts t').devices := by
  cases write with
  | none => exact h
  | some d =>
    rw [applied_some, applied_some]
    exact Db.Tables.devices_execute_congr h _

theorem matches_call {store : DeviceStore} {p : Process ι} {st : Site} (h : Matches p st)
    (c : Call) (now : ℕ) (ts : ℤ) (hsaves : (Move.call c now ts).Saves store p) :
    Matches (p.step store (.call c now ts)) (st.step store (.call c now ts)) := by
  obtain ⟨hopen, hdrained⟩ := drained_handedOver h.isOpen hsaves ts
  refine ⟨hopen, ?_, ?_⟩
  · show (c.exec store now st.inner).1 = (c.exec store now p.inner).1
    rw [h.inner]
  · show (applied (c.exec store now st.inner).2.write ts st.tables).devices = _
    rw [h.inner]
    exact (devices_applied_congr h.devices _ ts).trans (congrArg Db.Tables.devices hdrained.symm)

theorem matches_step {store : DeviceStore} {p : Process ι} {st : Site} (h : Matches p st)
    (m : Move ι) (hsaves : m.Saves store p) :
    Matches (p.step store m) (m.event?.toList.foldl (fun st e => st.step store e) st) := by
  cases m with
  | call c now ts => exact matches_call h c now ts hsaves
  | other producer op =>
    refine ⟨?_, h.inner, h.devices.trans ?_⟩
    · rw [step, Db.Pipeline.step, h.isOpen, if_neg Bool.false_ne_true, Db.Pipeline.send]
      split <;> exact h.isOpen
    · rw [step]
      by_cases hroom : p.pipeline.queue.length < Db.queueDepth
      · rw [Db.Pipeline.drained_send h.isOpen _ _ hroom]
        exact (Db.devices_execute_of_counter op.2 _).symm
      · rw [Db.Pipeline.step, h.isOpen, if_neg Bool.false_ne_true, Db.Pipeline.send, if_neg hroom]
        rfl
  | thread a =>
    refine ⟨(Alerts.sent_thread a.2 p.pipeline).1.trans h.isOpen, h.inner, ?_⟩
    exact h.devices.trans (Db.Pipeline.devices_drained_thread a.2 hsaves).symm

/-- As long as no row is lost, a registry whose rows are written at once goes with the process. -/
theorem matches_react {store : DeviceStore} (e : Happening ι) (p : Process ι) (st : Site)
    (hsaves : e.Saves store p) (h : Matches p st) :
    Matches (p.react store e) (e.event?.toList.foldl (fun st e => st.step store e) st) := by
  cases e with
  | move m => exact matches_step h m hsaves
  | restart readable now =>
    obtain ⟨rfl, hsettled⟩ := hsaves
    exact matches_boot store (h.devices_of_settled hsettled) now

end Process

end

end Devices

end Netwatch
