import Netwatch.Alerts.Queue
import Netwatch.Db.Overview
import Netwatch.Sql.Order

/-!
# The storm watcher

Every so often `storm_watcher` asks the query log who has had an unusual number of NXDOMAIN
answers, and raises an alert for each of them. The notifier takes alerts from the queue
meanwhile, and other alerts are raised in between.

## Main definitions

- `stormScan` — the alerts of one turn of the loop
- `ScanExact` — who is reported by a scan, in what order, and whose alert gets into the queue

## Main results

- `free_run_of_other_keys` — alerts about other subjects leave a cooldown slot as it is
- `stormScan_exact` — for every log, every state of the sink, and whatever else happens to the queue
-/

namespace Netwatch.Alerts

open RustStd Interleaving

def stormKind : Str := "nxdomain_storm".toList

/-- What one turn of the loop raises: nothing, if the log cannot be read. -/
def stormScan (windowMins threshold : UInt32) (t : Option Db.Tables) (now : ℤ) : List Alert :=
  match t with
  | none => []
  | some t =>
    (Db.nxdomainOffenders t now windowMins.toNat threshold.toNat).map fun c =>
      .nxdomainStorm c.1 c.2 windowMins

def Event.storm : Event → Option Alert
  | .raise alert _ => if alert.kind = stormKind then some alert else none
  | .drain => none

/-- The storms among what is raised. -/
def storms (events : List Event) : List Alert := events.filterMap Event.storm

/-- NXDOMAIN answers to a client in the window. -/
def nxdomains (t : Db.Tables) (now : ℤ) (windowMins : UInt32) (client : Str) : ℕ :=
  t.queries.rows.countP fun q =>
    now - windowMins.toNat * 60 ≤ q.ts ∧ q.status = "nxdomain".toList ∧ q.clientIp = client

def Storming (windowMins threshold : UInt32) (t : Db.Tables) (now : ℤ) (client : Str) : Prop :=
  0 < nxdomains t now windowMins client ∧ threshold.toNat ≤ nxdomains t now windowMins client

def stormOf (windowMins : UInt32) (t : Db.Tables) (now : ℤ) (client : Str) : Alert :=
  .nxdomainStorm client (nxdomains t now windowMins client) windowMins

/-- The scan reports who is over the threshold, once each and the worst first. A report is queued
unless its subject was reported not long before the scan, or the queue is full by then. -/
structure ScanExact (depth : ℕ) (windowMins threshold : UInt32) (t : Db.Tables) (now : ℤ)
    (sink : AlertSink) (events : List Event) : Prop where
  justified : ∀ alert ∈ storms events,
    Storming windowMins threshold t now alert.subject ∧
      alert = stormOf windowMins t now alert.subject
  once : ((storms events).map Alert.subject).Nodup
  worst : ((storms events).map Alert.subject).Pairwise fun client client' =>
    nxdomains t now windowMins client' ≤ nxdomains t now windowMins client
  reported : ∀ client, Storming windowMins threshold t now client →
    ∃ pre time post, events = pre ++ .raise (stormOf windowMins t now client) time :: post ∧
      ((run (Event.exec depth) pre sink).Enters depth (stormOf windowMins t now client) time ↔
        sink.Free (stormKind, client) time ∧
          (run (Event.exec depth) pre sink).queue.length < depth)

/-! ### The cooldown during a scan -/

theorem free_run_of_other_keys (depth : ℕ) {events : List Event} {key : Str × Str} {t : ℕ}
    (hkeys : ∀ alert now, .raise alert now ∈ events → alert.key ≠ key)
    (htimes : ∀ now ∈ events.filterMap Event.time, now ≤ t) (sink : AlertSink) :
    (run (Event.exec depth) events sink).Free key t ↔ sink.Free key t := by
  induction events generalizing sink with
  | nil => exact Iff.rfl
  | cons e events ih =>
    rw [run_cons]
    have hkeys' : ∀ alert now, .raise alert now ∈ events → alert.key ≠ key :=
      fun alert now h => hkeys alert now (List.mem_cons_of_mem e h)
    cases e with
    | drain => exact ih hkeys' htimes sink.recv.2
    | raise alert now =>
      have htimes : ∀ t' ∈ now :: events.filterMap Event.time, t' ≤ t := htimes
      rw [List.forall_mem_cons] at htimes
      refine (ih hkeys' htimes.2 _).trans ?_
      show (sink.raiseWithin depth alert now).Free key t ↔ _
      by_cases hfree : sink.Free alert.key now
      · rw [free_raiseWithin_of_free hfree htimes.1,
          if_neg (hkeys alert now List.mem_cons_self).symm]
      · rw [raiseWithin_of_not_free hfree]

theorem times_le_of_ordered {pre post : List Event} {alert : Alert} {t : ℕ}
    (h : Ordered (pre ++ .raise alert t :: post)) : ∀ now ∈ pre.filterMap Event.time, now ≤ t := by
  rw [Ordered, List.filterMap_append, List.pairwise_append] at h
  exact fun now hnow => h.2.2 now hnow t (by simp [Event.time])

theorem storms_append (events events' : List Event) :
    storms (events ++ events') = storms events ++ storms events' := List.filterMap_append

theorem storms_cons_raise {alert : Alert} (h : alert.kind = stormKind) (now : ℕ)
    (events : List Event) : storms (.raise alert now :: events) = alert :: storms events :=
  List.filterMap_cons_some (if_pos h)

theorem mem_storms {events : List Event} {alert : Alert} :
    alert ∈ storms events ↔ alert.kind = stormKind ∧ ∃ now, .raise alert now ∈ events := by
  rw [storms, List.mem_filterMap]
  constructor
  · rintro ⟨e, he, hstorm⟩
    cases e with
    | drain => cases hstorm
    | raise alert' now =>
      rw [Event.storm, Option.ite_none_right_eq_some] at hstorm
      obtain ⟨hkind, heq⟩ := hstorm
      cases heq
      exact ⟨hkind, now, he⟩
  · rintro ⟨hkind, now, he⟩
    exact ⟨.raise alert now, he, if_pos hkind⟩

/-! ### What the scan finds -/

theorem nxdomains_eq (t : Db.Tables) (now : ℤ) (windowMins : UInt32) (client : Str) :
    nxdomains t now windowMins client =
      ((t.queries.rows.filter fun q => now - windowMins.toNat * 60 ≤ q.ts ∧
        q.status = "nxdomain".toList).filter fun q => q.clientIp = client).length := by
  rw [nxdomains, List.filter_filter, List.countP_eq_length_filter]
  congr 1
  refine List.filter_congr fun q _ => ?_
  rw [Bool.decide_and, Bool.decide_and, Bool.decide_and, ← Bool.and_assoc, Bool.and_comm]

theorem mem_nxdomainOffenders {windowMins threshold : UInt32} {t : Db.Tables} {now : ℤ}
    {c : Str × ℕ} :
    c ∈ Db.nxdomainOffenders t now windowMins.toNat threshold.toNat ↔
      Storming windowMins threshold t now c.1 ∧ c.2 = nxdomains t now windowMins c.1 := by
  obtain ⟨client, n⟩ := c
  rw [Db.nxdomainOffenders, List.mem_insertionSort, List.mem_filter, List.mem_map,
    decide_eq_true_eq, Storming, nxdomains_eq]
  constructor
  · rintro ⟨⟨⟨k, group⟩, hgroup, heq⟩, hthreshold⟩
    cases heq
    obtain ⟨rfl, hne⟩ := Sql.mem_groupBy_iff.mp hgroup
    exact ⟨⟨List.length_pos_of_ne_nil hne, hthreshold⟩, rfl⟩
  · rintro ⟨⟨hpos, hthreshold⟩, hcount⟩
    refine ⟨⟨_, Sql.mem_groupBy_iff.mpr ⟨rfl, List.ne_nil_of_length_pos hpos⟩, ?_⟩, ?_⟩
    · exact Prod.ext rfl hcount.symm
    · exact hthreshold.trans_eq hcount.symm

theorem nodup_nxdomainOffenders (t : Db.Tables) (now : ℤ) (windowMins threshold : ℕ) :
    ((Db.nxdomainOffenders t now windowMins threshold).map Prod.fst).Nodup := by
  rw [Db.nxdomainOffenders]
  refine ((List.perm_insertionSort _ _).map Prod.fst).nodup_iff.mpr ?_
  refine List.Nodup.sublist (List.filter_sublist.map Prod.fst) ?_
  rw [List.map_map]
  exact Sql.nodup_keys_groupBy Db.QueryRecord.clientIp _

theorem pairwise_nxdomainOffenders (t : Db.Tables) (now : ℤ) (windowMins threshold : ℕ) :
    (Db.nxdomainOffenders t now windowMins threshold).Pairwise fun c c' => c'.2 ≤ c.2 := by
  have htotal : Std.Total fun c c' : Str × ℕ => c'.2 ≤ c.2 := ⟨fun c c' => le_total c'.2 c.2⟩
  have htrans : IsTrans (Str × ℕ) fun c c' => c'.2 ≤ c.2 := ⟨fun _ _ _ h h' => h'.trans h⟩
  exact List.pairwise_insertionSort _ _

theorem map_subject_stormScan (windowMins threshold : UInt32) (t : Db.Tables) (now : ℤ) :
    (stormScan windowMins threshold (some t) now).map Alert.subject =
      (Db.nxdomainOffenders t now windowMins.toNat threshold.toNat).map Prod.fst := by
  rw [stormScan, List.map_map]
  rfl

theorem mem_stormScan {windowMins threshold : UInt32} {t : Db.Tables} {now : ℤ} {alert : Alert} :
    alert ∈ stormScan windowMins threshold (some t) now ↔
      Storming windowMins threshold t now alert.subject ∧
        alert = stormOf windowMins t now alert.subject := by
  rw [stormScan, List.mem_map]
  constructor
  · rintro ⟨c, hc, rfl⟩
    obtain ⟨hstorming, hcount⟩ := mem_nxdomainOffenders.mp hc
    refine ⟨hstorming, ?_⟩
    show Alert.nxdomainStorm c.1 c.2 windowMins = stormOf windowMins t now c.1
    rw [stormOf, ← hcount]
  · rintro ⟨hstorming, heq⟩
    exact ⟨(alert.subject, _), mem_nxdomainOffenders.mpr ⟨hstorming, rfl⟩, heq.symm⟩

theorem pairwise_stormScan (windowMins threshold : UInt32) (t : Db.Tables) (now : ℤ) :
    ((stormScan windowMins threshold (some t) now).map Alert.subject).Pairwise fun client client' =>
      nxdomains t now windowMins client' ≤ nxdomains t now windowMins client := by
  rw [map_subject_stormScan, List.pairwise_map]
  refine (pairwise_nxdomainOffenders t now _ _).imp_of_mem fun hc hc' hle => ?_
  rw [← (mem_nxdomainOffenders.mp hc).2, ← (mem_nxdomainOffenders.mp hc').2]
  exact hle

/-! ### A scan among other events -/

theorem stormScan_exact (depth : ℕ) {windowMins threshold : UInt32} {t : Db.Tables} {now : ℤ}
    {events : List Event} (hscan : storms events = stormScan windowMins threshold (some t) now)
    (hordered : Ordered events) (sink : AlertSink) :
    ScanExact depth windowMins threshold t now sink events := by
  have honce : ((storms events).map Alert.subject).Nodup := by
    rw [hscan, map_subject_stormScan]
    exact nodup_nxdomainOffenders t now _ _
  refine ⟨fun alert halert => ?_, honce, ?_, fun client hstorming => ?_⟩
  · rw [hscan] at halert
    exact mem_stormScan.mp halert
  · rw [hscan]
    exact pairwise_stormScan windowMins threshold t now
  · have hmem : stormOf windowMins t now client ∈ storms events := by
      rw [hscan]
      exact mem_stormScan.mpr ⟨hstorming, rfl⟩
    obtain ⟨hkind, time, hraise⟩ := mem_storms.mp hmem
    obtain ⟨pre, post, rfl⟩ := List.append_of_mem hraise
    refine ⟨pre, time, post, rfl, AlertSink.enters_iff.trans (and_congr_left fun _ => ?_)⟩
    refine free_run_of_other_keys depth (fun alert time' halert hkey => ?_)
      (times_le_of_ordered hordered) sink
    -- an alert of that key before this one would be a second storm of the client
    obtain ⟨hkind', hsubject⟩ := Prod.ext_iff.mp hkey
    have hearlier : alert ∈ storms pre := mem_storms.mpr ⟨hkind', time', halert⟩
    rw [storms_append, storms_cons_raise hkind, List.map_append, List.map_cons] at honce
    refine List.disjoint_of_nodup_append honce (List.mem_map_of_mem hearlier) ?_
    rw [show alert.subject = client from hsubject]
    exact List.mem_cons_self

def unanswered (client : Str) (ts : ℤ) : Db.WriteOp :=
  .query
    { ts, clientIp := client, domain := "qx7fk2.biz".toList, qtype := "A".toList
      status := .nxDomain, elapsedMs := none, answer := none, blocklist := none }

/-- The second client has asked most, and the third not enough. -/
def stormLog : Db.Tables :=
  Db.Tables.fresh.executeAll
    [unanswered "10.0.0.2".toList 990, unanswered "10.0.0.3".toList 991,
      unanswered "10.0.0.3".toList 992, unanswered "10.0.0.2".toList 993,
      unanswered "10.0.0.3".toList 994, unanswered "10.0.0.4".toList 995,
      unanswered "10.0.0.4".toList 200]

/-- A device appears, and the notifier wakes up, while the scan raises its alerts. -/
def stormEvents : List Event :=
  [.raise (stormOf 10 stormLog 1000 "10.0.0.3".toList) 7,
    .raise (.newDevice "aa:bb:cc:00:00:01".toList none none) 7, .drain,
    .raise (stormOf 10 stormLog 1000 "10.0.0.2".toList) 8]

theorem stormScan_exact_interrupted :
    ScanExact 1 10 2 stormLog 1000 (.unused 3600) stormEvents :=
  stormScan_exact 1 (by decide +kernel) (by show List.Pairwise _ [7, 7, 8]; decide) _

end Netwatch.Alerts
