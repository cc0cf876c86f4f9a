import Netwatch.Db.Tables
import Netwatch.Interleaving.Run
import Netwatch.Netinfo.Proc

/-!
# Throughput

`throughput_sampler` of `monitor.rs`: at every tick the counters of the kernel are read, and an
interface that has been read before gets a sample with the rate since then.

## Main definitions

- `Sampler.tick` — one turn of the loop
- `readings` — what the kernel has shown of an interface, tick by tick
- `Sampled` — the samples of every interface

## Main results

- `sampled_run` — over every sequence of ticks, failed readings and vanished interfaces included
-/

namespace Netwatch.Monitor

open RustStd Interleaving Netinfo

/-- What is remembered of an interface. -/
structure Counted where
  rxBytes : ℕ
  txBytes : ℕ
  /-- In nanoseconds. -/
  readAt : ℕ

/-- `n as i64` of a `u64`. -/
def asI64 (n : ℕ) : ℤ := (BitVec.ofNat 64 n).toInt

/-- `Duration::as_secs_f64` -/
def asSecsF64 (nanos : ℕ) : Float := (nanos / 10 ^ 9).toFloat + (nanos % 10 ^ 9).toFloat / 1e9

def bps (delta nanos : ℕ) : ℤ := (delta.toFloat * 8.0 / asSecsF64 nanos).toInt64.toInt

/-- `saturating_sub`: a counter that has wrapped has gained nothing. -/
def rate (prev : Counted) (c : IfaceCounters) (now : ℕ) (ts : ℤ) : Db.IfaceSample where
  ts := ts
  iface := c.iface
  rxBytes := asI64 c.rxBytes
  txBytes := asI64 c.txBytes
  rxBps := bps (c.rxBytes - prev.rxBytes) (now - prev.readAt)
  txBps := bps (c.txBytes - prev.txBytes) (now - prev.readAt)

structure Sampler where
  last : HashMap Str Counted
  sent : List Db.IfaceSample

namespace Sampler

def start : Sampler := ⟨∅, []⟩

/-- One interface. -/
def sample (now : ℕ) (ts : ℤ) (st : Sampler) (c : IfaceCounters) : Sampler :=
  let counted : Counted := ⟨c.rxBytes, c.txBytes, now⟩
  match st.last.lookup c.iface with
  | some prev =>
    -- `secs <= 0.0`
    if now - prev.readAt = 0 then st
    else ⟨st.last.insert c.iface counted, st.sent ++ [rate prev c now ts]⟩
  | none => { st with last := st.last.insert c.iface counted }

end Sampler

/-- The text of `/proc/net/dev`, if it can be read, and the clocks. -/
structure Tick where
  text : Option Str
  now : ℕ
  ts : ℤ

def Sampler.tick (t : Tick) (st : Sampler) : Sampler :=
  match t.text with
  | none => st
  | some text => (parseIfaceCounters text).foldl (sample t.now t.ts) st

/-- What the kernel has at a tick; names of interfaces are unique. -/
def Tick.Shows (t : Tick) (devices : List Device) : Prop :=
  match t.text with
  | none => devices = []
  | some text => PrintsDevices devices text ∧ (devices.map Device.iface).Nodup

/-- What is read of one interface at one tick. -/
structure Reading where
  counters : IfaceCounters
  now : ℕ
  ts : ℤ

def Reading.counted (r : Reading) : Counted := ⟨r.counters.rxBytes, r.counters.txBytes, r.now⟩

/-- What a tick shows of an interface. -/
def reading (iface : Str) (shown : Tick × List Device) : Option Reading :=
  (shown.2.find? fun d => d.iface = iface).map fun d => ⟨d.counters, shown.1.now, shown.1.ts⟩

def readings (iface : Str) (shown : List (Tick × List Device)) : List Reading :=
  shown.filterMap (reading iface)

/-- What a counter has gained; one that went down has gained nothing. -/
def gained (before after : ℕ) : ℕ := if before ≤ after then after - before else 0

/-- The counters of a reading, with the rate since the reading before. -/
def sampleOf (r r' : Reading) : Db.IfaceSample where
  ts := r'.ts
  iface := r'.counters.iface
  rxBytes := asI64 r'.counters.rxBytes
  txBytes := asI64 r'.counters.txBytes
  rxBps := bps (gained r.counters.rxBytes r'.counters.rxBytes) (r'.now - r.now)
  txBps := bps (gained r.counters.txBytes r'.counters.txBytes) (r'.now - r.now)

/-- A sample for each reading but the first. -/
def between (rs : List Reading) : List Db.IfaceSample := List.zipWith sampleOf rs rs.tail

/-- Every interface but the loopback has the samples between its readings. -/
structure Sampled (shown : List (Tick × List Device)) (sent : List Db.IfaceSample) : Prop where
  each : ∀ iface, iface ≠ loopback →
    (sent.filter fun s => s.iface = iface) = between (readings iface shown)
  noLoopback : ∀ s ∈ sent, s.iface ≠ loopback

/-! ### One tick -/

theorem gained_eq (before after : ℕ) : gained before after = after - before := by
  rw [gained]
  split
  · rfl
  · omega

theorem rate_eq (r r' : Reading) : rate r.counted r'.counters r'.now r'.ts = sampleOf r r' := by
  rw [sampleOf, gained_eq, gained_eq]
  rfl

theorem between_concat (rs : List Reading) (r : Reading) :
    between (rs ++ [r]) =
      between rs ++ (rs.getLast?.map fun prev => sampleOf prev r).toList := by
  induction rs with
  | nil => rfl
  | cons first rs ih =>
    cases rs with
    | nil => rfl
    | cons second rs =>
      have hstep : ∀ tail, between (first :: second :: tail) =
          sampleOf first second :: between (second :: tail) :=
        fun tail => rfl
      rw [List.getLast?_cons_cons, hstep rs]
      exact (hstep (rs ++ [r])).trans (congrArg (List.cons _) ih)

namespace Sampler

variable (now : ℕ) (ts : ℤ)

/-- The samples of an interface. -/
def samplesOf (iface : Str) (st : Sampler) : List Db.IfaceSample :=
  st.sent.filter fun s => s.iface = iface

theorem sample_other {c : IfaceCounters} {iface : Str} (h : c.iface ≠ iface) (st : Sampler) :
    (st.sample now ts c).last.lookup iface = st.last.lookup iface ∧
      (st.sample now ts c).samplesOf iface = st.samplesOf iface := by
  have hne : ¬ iface = c.iface := fun heq => h heq.symm
  rw [sample]
  cases st.last.lookup c.iface with
  | none => exact ⟨(HashMap.lookup_insert _ _ _ _).trans (if_neg hne), rfl⟩
  | some prev =>
    dsimp only
    split
    · exact ⟨rfl, rfl⟩
    · refine ⟨(HashMap.lookup_insert _ _ _ _).trans (if_neg hne), ?_⟩
      have hother : ¬ (rate prev c now ts).iface = iface := h
      rw [samplesOf, List.filter_append, List.filter_cons_of_neg (by simpa using hother),
        List.filter_nil, List.append_nil, samplesOf]

theorem sample_self (c : IfaceCounters) {st : Sampler}
    (hfresh : ∀ prev ∈ st.last.lookup c.iface, prev.readAt < now) :
    (st.sample now ts c).last.lookup c.iface = some ⟨c.rxBytes, c.txBytes, now⟩ ∧
      (st.sample now ts c).samplesOf c.iface = st.samplesOf c.iface ++
        ((st.last.lookup c.iface).map fun prev => rate prev c now ts).toList := by
  rw [sample]
  cases hlast : st.last.lookup c.iface with
  | none =>
    refine ⟨(HashMap.lookup_insert _ _ _ _).trans (if_pos rfl), ?_⟩
    rw [Option.map_none, Option.toList_none, List.append_nil]
    rfl
  | some prev =>
    have hlater : ¬ now - prev.readAt = 0 := by
      have := hfresh prev hlast
      omega
    dsimp only
    rw [if_neg hlater]
    refine ⟨(HashMap.lookup_insert _ _ _ _).trans (if_pos rfl), ?_⟩
    rw [samplesOf, List.filter_append, List.filter_cons_of_pos (by simp [rate]), List.filter_nil,
      samplesOf]
    rfl

theorem foldl_sample_other {cs : List IfaceCounters} {iface : Str}
    (h : iface ∉ cs.map IfaceCounters.iface) (st : Sampler) :
    (cs.foldl (sample now ts) st).last.lookup iface = st.last.lookup iface ∧
      (cs.foldl (sample now ts) st).samplesOf iface = st.samplesOf iface := by
  induction cs generalizing st with
  | nil => exact ⟨rfl, rfl⟩
  | cons c cs ih =>
    rw [List.map_cons, List.mem_cons, not_or] at h
    obtain ⟨hlast, hsamples⟩ := sample_other now ts (fun heq => h.1 heq.symm) st
    obtain ⟨hlast', hsamples'⟩ := ih h.2 (st.sample now ts c)
    exact ⟨hlast'.trans hlast, hsamples'.trans hsamples⟩

theorem foldl_sample_self {cs : List IfaceCounters} (hnodup : (cs.map IfaceCounters.iface).Nodup)
    {c : IfaceCounters} (hc : c ∈ cs) {st : Sampler}
    (hfresh : ∀ prev ∈ st.last.lookup c.iface, prev.readAt < now) :
    (cs.foldl (sample now ts) st).last.lookup c.iface = some ⟨c.rxBytes, c.txBytes, now⟩ ∧
      (cs.foldl (sample now ts) st).samplesOf c.iface = st.samplesOf c.iface ++
        ((st.last.lookup c.iface).map fun prev => rate prev c now ts).toList := by
  induction cs generalizing st with
  | nil => cases hc
  | cons c' cs ih =>
    rw [List.map_cons, List.nodup_cons] at hnodup
    rw [List.foldl_cons]
    obtain rfl | hc := List.mem_cons.mp hc
    · obtain ⟨hlast, hsamples⟩ := foldl_sample_other now ts hnodup.1 (st.sample now ts c)
      obtain ⟨hlast', hsamples'⟩ := sample_self now ts c hfresh
      exact ⟨hlast.trans hlast', hsamples.trans hsamples'⟩
    · have hne : c'.iface ≠ c.iface := fun heq =>
        hnodup.1 (heq ▸ List.mem_map_of_mem hc)
      obtain ⟨hlast, hsamples⟩ := sample_other now ts hne st
      rw [← hlast, ← hsamples]
      exact ih hnodup.2 hc fun prev hprev => hfresh prev (hlast ▸ hprev)

theorem mem_sent_foldl {cs : List IfaceCounters} {st : Sampler} {s : Db.IfaceSample}
    (h : s ∈ (cs.foldl (sample now ts) st).sent) : s ∈ st.sent ∨ ∃ c ∈ cs, s.iface = c.iface := by
  induction cs generalizing st with
  | nil => exact .inl h
  | cons c cs ih =>
    obtain hmem | ⟨c', hc', heq⟩ := ih h
    · rw [sample] at hmem
      cases hlast : st.last.lookup c.iface with
      | none =>
        rw [hlast] at hmem
        exact .inl hmem
      | some prev =>
        rw [hlast] at hmem
        dsimp only at hmem
        split at hmem
        · exact .inl hmem
        · rw [List.mem_append, List.mem_singleton] at hmem
          obtain hmem | rfl := hmem
          · exact .inl hmem
          · exact .inr ⟨c, List.mem_cons_self, rfl⟩
    · exact .inr ⟨c', List.mem_cons_of_mem c hc', heq⟩

end Sampler

/-! ### Runs -/

/-- The tick's table, as the loop goes through it. -/
def countersOf (devices : List Device) : List IfaceCounters :=
  (devices.filter fun d => d.iface ≠ loopback).map Device.counters

theorem tick_eq {t : Tick} {devices : List Device} (h : t.Shows devices) (st : Sampler) :
    st.tick t = (countersOf devices).foldl (Sampler.sample t.now t.ts) st := by
  rw [Sampler.tick]
  cases htext : t.text with
  | none =>
    rw [Tick.Shows, htext] at h
    rw [h]
    rfl
  | some text =>
    rw [Tick.Shows, htext] at h
    exact congrArg (List.foldl _ st) (parseIfaceCounters_eq h.1)

theorem nodup_countersOf {t : Tick} {devices : List Device} (h : t.Shows devices) :
    ((countersOf devices).map IfaceCounters.iface).Nodup := by
  have hnodup : (devices.map Device.iface).Nodup := by
    rw [Tick.Shows] at h
    cases htext : t.text with
    | none =>
      rw [htext] at h
      rw [h]
      exact List.nodup_nil
    | some text =>
      rw [htext] at h
      exact h.2
  rw [countersOf, List.map_map]
  exact hnodup.sublist (List.filter_sublist.map _)

/-- A tick adds the sample since the last reading of each interface that it shows. -/
theorem tick_samples {t : Tick} {devices : List Device} (h : t.Shows devices) {iface : Str}
    (hiface : iface ≠ loopback) {st : Sampler}
    (hfresh : ∀ prev ∈ st.last.lookup iface, prev.readAt < t.now) :
    (st.tick t).last.lookup iface =
        ((reading iface (t, devices)).map Reading.counted).or (st.last.lookup iface) ∧
      (st.tick t).samplesOf iface = st.samplesOf iface ++
        ((st.last.lookup iface).bind fun prev => (reading iface (t, devices)).map fun r =>
          rate prev r.counters r.now r.ts).toList := by
  rw [tick_eq h, reading]
  cases hfind : devices.find? fun d => d.iface = iface with
  | none =>
    -- an interface that is gone is remembered as it was
    have hother : iface ∉ (countersOf devices).map IfaceCounters.iface := by
      intro hmem
      rw [countersOf, List.map_map] at hmem
      obtain ⟨d, hd, heq⟩ := List.mem_map.mp hmem
      have hnot := List.find?_eq_none.mp hfind d (List.mem_of_mem_filter hd)
      exact hnot (decide_eq_true heq)
    obtain ⟨hlast, hsamples⟩ := Sampler.foldl_sample_other t.now t.ts hother st
    refine ⟨hlast, hsamples.trans ?_⟩
    cases st.last.lookup iface <;> exact (List.append_nil _).symm
  | some d =>
    have hdecide := List.find?_some hfind
    have hname : d.iface = iface := of_decide_eq_true hdecide
    subst hname
    -- the tick reads it once
    have hmem : d.counters ∈ countersOf devices :=
      List.mem_map_of_mem (List.mem_filter.mpr
        ⟨List.mem_of_find?_eq_some hfind, decide_eq_true hiface⟩)
    obtain ⟨hlast, hsamples⟩ :=
      Sampler.foldl_sample_self t.now t.ts (nodup_countersOf h) hmem hfresh
    refine ⟨hlast, hsamples.trans ?_⟩
    show _ ++ ((st.last.lookup d.iface).map _).toList = _
    cases st.last.lookup d.iface <;> rfl

/-- What is remembered is what was read last, at an earlier tick. -/
structure Remembers (shown : List (Tick × List Device)) (st : Sampler) : Prop where
  last : ∀ iface, iface ≠ loopback →
    st.last.lookup iface = (readings iface shown).getLast?.map Reading.counted
  samples : ∀ iface, iface ≠ loopback → st.samplesOf iface = between (readings iface shown)
  noLoopback : ∀ s ∈ st.sent, s.iface ≠ loopback

theorem readings_concat (iface : Str) (shown : List (Tick × List Device))
    (p : Tick × List Device) :
    readings iface (shown ++ [p]) = readings iface shown ++ (reading iface p).toList := by
  rw [readings, List.filterMap_append, List.filterMap_cons]
  cases reading iface p <;> rfl

theorem exists_of_mem_readings {iface : Str} {shown : List (Tick × List Device)} {r : Reading}
    (h : r ∈ readings iface shown) : ∃ p ∈ shown, r.now = p.1.now := by
  obtain ⟨p, hp, hr⟩ := List.mem_filterMap.mp h
  obtain ⟨d, -, rfl⟩ := Option.map_eq_some_iff.mp hr
  exact ⟨p, hp, rfl⟩

theorem remembers_tick {shown : List (Tick × List Device)} {st : Sampler}
    (hst : Remembers shown st) {t : Tick} {devices : List Device} (h : t.Shows devices)
    (hlater : ∀ p ∈ shown, p.1.now < t.now) : Remembers (shown ++ [(t, devices)]) (st.tick t) := by
  -- what is remembered was read at an earlier tick
  have hfresh : ∀ iface, iface ≠ loopback → ∀ prev ∈ st.last.lookup iface, prev.readAt < t.now := by
    intro iface hiface prev hprev
    rw [hst.last iface hiface, Option.mem_def, Option.map_eq_some_iff] at hprev
    obtain ⟨r, hr, rfl⟩ := hprev
    obtain ⟨p, hp, hnow⟩ := exists_of_mem_readings (List.mem_of_getLast? hr)
    show r.now < t.now
    rw [hnow]
    exact hlater p hp
  refine ⟨fun iface hiface => ?_, fun iface hiface => ?_, fun s hs => ?_⟩
  · rw [(tick_samples h hiface (hfresh iface hiface)).1, hst.last iface hiface, readings_concat]
    cases reading iface (t, devices) with
    | none => rw [Option.toList_none, List.append_nil]; rfl
    | some r => rw [Option.toList_some, List.getLast?_concat]; rfl
  · rw [(tick_samples h hiface (hfresh iface hiface)).2, hst.samples iface hiface,
      hst.last iface hiface, readings_concat]
    cases reading iface (t, devices) with
    | none => simp
    | some r =>
      rw [Option.toList_some, between_concat]
      cases (readings iface shown).getLast? with
      | none => rfl
      | some prev => simp [rate_eq]
  · rw [tick_eq h] at hs
    obtain hold | ⟨c, hc, heq⟩ := Sampler.mem_sent_foldl _ _ hs
    · exact hst.noLoopback s hold
    · obtain ⟨d, hd, rfl⟩ := List.mem_map.mp hc
      rw [heq]
      exact of_decide_eq_true (List.mem_filter.mp hd).2

theorem remembers_run {shown : List (Tick × List Device)}
    (hshows : ∀ p ∈ shown, p.1.Shows p.2)
    (hlater : (shown.map fun p => p.1.now).Pairwise (· < ·)) :
    Remembers shown (run Sampler.tick (shown.map Prod.fst) .start) := by
  induction shown using List.reverseRecOn with
  | nil =>
    refine ⟨fun iface _ => rfl, fun iface _ => rfl, fun s hs => ?_⟩
    cases hs
  | append_singleton shown p ih =>
    rw [List.forall_mem_append, List.forall_mem_singleton] at hshows
    rw [List.map_append, List.pairwise_append] at hlater
    rw [List.map_append, run_append]
    refine remembers_tick (ih hshows.1 hlater.1) hshows.2 fun q hq => ?_
    exact hlater.2.2 _ (List.mem_map_of_mem hq) _ List.mem_cons_self

/-- Whatever the kernel shows from tick to tick, and however it is aligned. -/
theorem sampled_run {shown : List (Tick × List Device)} (hshows : ∀ p ∈ shown, p.1.Shows p.2)
    (hlater : (shown.map fun p => p.1.now).Pairwise (· < ·)) :
    Sampled shown (run Sampler.tick (shown.map Prod.fst) .start).sent := by
  have hall := remembers_run hshows hlater
  exact ⟨hall.samples, hall.noLoopback⟩

def lanDevice (rxBytes txBytes : UInt64) : Device where
  iface := "eth0".toList
  rx := ⟨rxBytes, 50, 1, 2, fun _ => 0⟩
  tx := ⟨txBytes, 60, 4, 5, fun _ => 0⟩

def devText (line : Str) : Str := Str.ofLines ["Inter-|".toList, " face |".toList, line]

theorem shows_lanDevice {rxBytes txBytes : UInt64} {rest : Str}
    (h : Str.splitWhitespace rest =
      (lanDevice rxBytes txBytes).rx.words ++ (lanDevice rxBytes txBytes).tx.words)
    (hfeed : '\n' ∉ rest) (now : ℕ) (ts : ℤ) :
    (⟨some (devText ("  eth0:".toList ++ rest)), now, ts⟩ : Tick).Shows
      [lanDevice rxBytes txBytes] := by
  have hfeed' : '\n' ∉ "  eth0:".toList ++ rest := by
    rw [List.mem_append, not_or]
    exact ⟨by decide, hfeed⟩
  refine ⟨⟨["Inter-|".toList, " face |".toList], ["  eth0:".toList ++ rest], rfl, ?_, rfl,
    .cons ?_ .nil⟩, List.nodup_singleton _⟩
  · rw [List.cons_append, List.cons_append, List.nil_append, List.forall_mem_cons,
      List.forall_mem_cons, List.forall_mem_singleton]
    exact ⟨by decide, by decide, hfeed'⟩
  · have hblank : "  ".toList.all Str.isWhitespace = true := by decide
    have hsolid : "eth0".toList.all (fun c => !Str.isWhitespace c) = true := by decide
    have hword : Str.IsWord "eth0".toList := by
      refine ⟨by decide, fun c hc => ?_⟩
      simpa using List.all_eq_true.mp hsolid c hc
    have hcolon : ':' ∉ "eth0".toList := by decide
    exact ⟨"  ".toList, rest, List.all_eq_true.mp hblank, hword, hcolon, rfl, Str.shows_iff.mpr h⟩

/-- The second reading fails, and one counter starts again after that. -/
def interrupted : List (Tick × List Device) :=
  [(⟨some (devText ("  eth0:".toList ++ "5000 50 1 2 0 0 0 0 6000 60 4 5 0 0 0 0".toList)),
      0, 1700000000⟩, [lanDevice 5000 6000]),
    (⟨none, 10000000000, 1700000010⟩, []),
    (⟨some (devText ("  eth0:".toList ++ "9000 50 1 2 0 0 0 0 500 60 4 5 0 0 0 0".toList)),
      20000000000, 1700000020⟩, [lanDevice 9000 500])]

theorem sampled_run_interrupted :
    Sampled interrupted (run Sampler.tick (interrupted.map Prod.fst) .start).sent := by
  refine sampled_run ?_ (by decide)
  rw [interrupted, List.forall_mem_cons, List.forall_mem_cons, List.forall_mem_singleton]
  refine ⟨?_, rfl, ?_⟩
  · exact shows_lanDevice (by decide +kernel) (by decide +kernel) _ _
  · exact shows_lanDevice (by decide +kernel) (by decide +kernel) _ _

end Netwatch.Monitor
