import Netwatch.Db.Timeseries

/-!
# The overview

The other reads of `db.rs`, and what `summary` and `devices` have to do with the panels: each is
read by a statement of its own, over the same log.

## Main definitions

- `summary`, `devices`, `nxdomainOffenders`, `alerts`, `ifaceSeries` — the reads
- `Agrees` — the panels of one database at one moment

## Main results

- `devices_eq` — one row for each device, with the queries from its address
- `agrees_run` — the panels agree in every database the writer can leave
-/

namespace Netwatch

open RustStd

namespace Db

structure Summary where
  total24h : ℕ
  blocked24h : ℕ
  blockPercent : Float
  cached24h : ℕ
  clients24h : ℕ
  uniqueDomains24h : ℕ
  total1h : ℕ
  queriesPerMin : Float
  avgUpstreamMs : Option Float
  deviceCount : ℕ
  devicesActive24h : ℕ

/-- `AVG` leaves `NULL` out, and is `NULL` if nothing else is there. -/
def avg (column : List (Option UInt32)) : Option Float :=
  let values := column.reduceOption.map UInt32.toNat
  if values = [] then none else some (values.sum.toFloat / values.length.toFloat)

/-- The clock is read for the day and for the hour. -/
def summary (t : Tables) (now now' : ℤ) : Summary :=
  let day := now - 86400
  let hour := now' - 3600
  let rows := t.queries.rows.filter fun q => day ≤ q.ts
  let total := rows.length
  let blocked := rows.countP fun q => q.status = "blocked".toList
  let total1h := t.queries.rows.countP fun q => hour ≤ q.ts
  { total24h := total
    blocked24h := blocked
    blockPercent := if total > 0 then blocked.toFloat * 100.0 / total.toFloat else 0.0
    cached24h := rows.countP fun q => q.status = "cached".toList
    clients24h := (rows.map QueryRecord.clientIp).dedup.length
    uniqueDomains24h := (rows.map QueryRecord.domain).dedup.length
    total1h
    queriesPerMin := total1h.toFloat / 60.0
    avgUpstreamMs := avg (rows.map QueryRecord.elapsedMs)
    deviceCount := t.devices.rows.length
    devicesActive24h := t.devices.rows.countP fun d => day ≤ d.lastSeen }

structure DeviceRow where
  mac : Str
  ip : Option Str
  hostname : Option Str
  vendor : Option Str
  randomized : Bool
  firstSeen : ℤ
  lastSeen : ℤ
  queries24h : ℕ
  blocked24h : ℕ
  deriving DecidableEq

def isBlocked (q : QueryRecord) : Bool := q.status = "blocked".toList

/-- The columns of a device, with the sums over the group that is joined to it. -/
def deviceRow (joined : DeviceRecord × Option (Str × List QueryRecord)) : DeviceRow where
  mac := joined.1.mac
  ip := joined.1.ip
  hostname := joined.1.hostname
  vendor := joined.1.vendor
  randomized := joined.1.randomized
  firstSeen := joined.1.firstSeen
  lastSeen := joined.1.lastSeen
  queries24h := joined.2.elim 0 fun g => g.2.length
  blocked24h := joined.2.elim 0 fun g => g.2.countP isBlocked

/-- `SELECT … FROM queries WHERE ts >= ?1 GROUP BY client_ip` -/
def perClient (t : Tables) (since : ℤ) : List (Str × List QueryRecord) :=
  Sql.groupBy QueryRecord.clientIp (t.queries.rows.filter fun q => since ≤ q.ts)

def devices (t : Tables) (now : ℤ) : List DeviceRow :=
  let day := now - 86400
  let joined := Sql.leftJoin (fun d g => d.ip = some g.1) t.devices.rows (perClient t day)
  (joined.insertionSort fun j j' => j'.1.lastSeen ≤ j.1.lastSeen).map deviceRow

/-- Clients with at least `threshold` answers that a name does not exist, worst first. -/
def nxdomainOffenders (t : Tables) (now : ℤ) (windowMins threshold : ℕ) : List (Str × ℕ) :=
  let cutoff := now - windowMins * 60
  let rows := t.queries.rows.filter fun q => cutoff ≤ q.ts ∧ q.status = "nxdomain".toList
  let counted := (Sql.groupBy QueryRecord.clientIp rows).map fun g => (g.1, g.2.length)
  (counted.filter fun c => threshold ≤ c.2).insertionSort fun c c' => c'.2 ≤ c.2

/-- `ORDER BY ts DESC, id DESC` of `alerts`. -/
def AlertNotOlder (a a' : AlertRow) : Prop := a'.ts < a.ts ∨ a'.ts = a.ts ∧ a'.id ≤ a.id

instance : DecidableRel AlertNotOlder := fun a a' =>
  inferInstanceAs (Decidable (a'.ts < a.ts ∨ a'.ts = a.ts ∧ a'.id ≤ a.id))

def alerts (t : Tables) (limit : ℕ) : List AlertRow :=
  Sql.page limit 0 (t.alerts.rows.insertionSort AlertNotOlder)

structure IfaceRow where
  ts : ℤ
  iface : Str
  rxBps : ℤ
  txBps : ℤ

/-- SQLite leaves the order of samples of one second open. -/
def ifaceSeries (t : Tables) (now minutes : ℤ) : List IfaceRow :=
  let since := now - max minutes 1 * 60
  let rows := t.ifaceSamples.filter fun r => since ≤ r.ts
  (rows.insertionSort fun r r' => r.ts ≤ r'.ts).map fun r =>
    { ts := r.ts, iface := r.iface, rxBps := r.rxBps, txBps := r.txBps }

/-! ### The devices -/

/-- The queries from the address of a device, in a window. -/
def askedFrom (t : Tables) (since : ℤ) (p : QueryRecord → Bool) (d : DeviceRecord) : ℕ :=
  t.queries.rows.countP fun q => d.ip = some q.clientIp ∧ since ≤ q.ts ∧ p q = true

def countedRow (t : Tables) (since : ℤ) (d : DeviceRecord) : DeviceRow where
  mac := d.mac
  ip := d.ip
  hostname := d.hostname
  vendor := d.vendor
  randomized := d.randomized
  firstSeen := d.firstSeen
  lastSeen := d.lastSeen
  queries24h := askedFrom t since (fun _ => true) d
  blocked24h := askedFrom t since isBlocked d

/-- What the join finds for a device without an address, or with one. -/
theorem elim_perClient (t : Tables) (since : ℤ) (d : DeviceRecord) (p : QueryRecord → Bool) :
    ((perClient t since).find? fun g => d.ip = some g.1).elim 0 (fun g => g.2.countP p) =
      askedFrom t since p d := by
  rw [askedFrom]
  cases hip : d.ip with
  | none =>
    have hfind : (perClient t since).find? (fun g => (none : Option Str) = some g.1) = none :=
      List.find?_eq_none.mpr fun g _ hcon => nomatch of_decide_eq_true hcon
    rw [hfind, Option.elim_none, eq_comm, List.countP_eq_zero]
    simp
  | some ip =>
    have hkey : (fun g : Str × List QueryRecord => decide (some ip = some g.1)) =
        fun g => decide (g.1 = ip) := by
      funext g
      simp [eq_comm]
    rw [hkey, perClient, Sql.find?_groupBy _ _ ip (List.countP p) rfl, List.filter_filter,
      List.countP_filter]
    congr 1
    funext q
    simp only [Option.some.injEq, eq_comm (a := ip)]
    by_cases hq : q.clientIp = ip <;> simp [hq, and_comm]

/-- Each device has one row, whoever else has its address. -/
theorem devices_eq (t : Tables) (now : ℤ) :
    devices t now = (t.devices.rows.insertionSort fun d d' => d'.lastSeen ≤ d.lastSeen).map
      (countedRow t (now - 86400)) := by
  have hjoin : Sql.leftJoin (fun (d : DeviceRecord) (g : Str × List QueryRecord) => d.ip = some g.1)
      t.devices.rows (perClient t (now - 86400)) =
        t.devices.rows.map fun d =>
          (d, (perClient t (now - 86400)).find? fun g => d.ip = some g.1) := by
    refine Sql.leftJoin_groupBy (fun (d : DeviceRecord) ip => d.ip = some ip) _ _ _ ?_
    intro d ip ip' hip hip'
    rw [decide_eq_true_eq] at hip hip'
    exact Option.some.inj (hip.symm.trans hip')
  have hrow : ∀ d, deviceRow (d, (perClient t (now - 86400)).find? fun g => d.ip = some g.1) =
      countedRow t (now - 86400) d := by
    intro d
    have hall := elim_perClient t (now - 86400) d fun _ => true
    have hblocked := elim_perClient t (now - 86400) d isBlocked
    simp only [List.countP_true] at hall
    rw [deviceRow, countedRow, ← hall, ← hblocked]
  rw [devices]
  simp only [hjoin]
  rw [← List.map_insertionSort (fun d d' : DeviceRecord => d'.lastSeen ≤ d.lastSeen) _
    (fun d => (d, (perClient t (now - 86400)).find? fun g => d.ip = some g.1)) t.devices.rows
    fun _ _ _ _ => Iff.rfl, List.map_map]
  exact List.map_congr_left fun d _ => hrow d

/-- While an address has one holder, the devices share the queries of the window out among
them. -/
theorem sum_askedFrom {t : Tables} (h : t.OneHolder) (since : ℤ) (p : QueryRecord → Bool) :
    (t.devices.rows.map (askedFrom t since p)).sum =
      t.queries.rows.countP fun q =>
        (∃ d ∈ t.devices.rows, d.ip = some q.clientIp) ∧ since ≤ q.ts ∧ p q = true := by
  have hholders : ∀ q : QueryRecord,
      t.devices.rows.countP (fun d => d.ip = some q.clientIp ∧ since ≤ q.ts ∧ p q = true) =
        if (∃ d ∈ t.devices.rows, d.ip = some q.clientIp) ∧ since ≤ q.ts ∧ p q = true
        then 1 else 0 := by
    intro q
    by_cases hq : since ≤ q.ts ∧ p q = true
    · have hone : t.devices.rows.countP (fun d => d.ip = some q.clientIp) ≤ 1 := by
        rw [List.countP_eq_length_filter]
        exact h q.clientIp
      have hpos : 0 < t.devices.rows.countP (fun d => d.ip = some q.clientIp) ↔
          ∃ d ∈ t.devices.rows, d.ip = some q.clientIp := by
        rw [List.countP_pos_iff]
        simp only [decide_eq_true_eq]
      simp only [hq, and_true]
      split
      · next hheld => exact Nat.le_antisymm hone (hpos.mpr hheld)
      · next hfree => exact Nat.eq_zero_of_not_pos fun hcon => hfree (hpos.mp hcon)
    · simp [hq]
  have hcomm := Sql.sum_countP_comm
    (fun (d : DeviceRecord) (q : QueryRecord) => d.ip = some q.clientIp ∧ since ≤ q.ts ∧ p q = true)
    t.devices.rows t.queries.rows
  refine hcomm.trans ?_
  rw [← Sql.sum_map_ite]
  congr 1
  refine List.map_congr_left fun q _ => ?_
  rw [hholders q]
  simp only [decide_eq_true_eq]

/-! ### The panels -/

theorem sum_report {α : Type} (label : α → Str) (sublabel : List α → Option Str) (limit : ℕ)
    (rows : List α) :
    ((report label sublabel limit rows).map Counted.count).sum ≤ rows.length ∧
      ((report label sublabel limit rows).length < limit →
        ((report label sublabel limit rows).map Counted.count).sum = rows.length) := by
  let counted := (Sql.groupBy label rows).map fun g =>
    { label := g.1, sublabel := sublabel g.2, count := g.2.length : Counted }
  let sorted := counted.insertionSort fun c c' => c'.count ≤ c.count
  have htotal : (sorted.map Counted.count).sum = rows.length := by
    have hperm := (List.perm_insertionSort (fun c c' : Counted => c'.count ≤ c.count) counted).map
      Counted.count
    rw [hperm.sum_eq, List.map_map]
    exact Sql.sum_length_groupBy label rows
  have hreport : report label sublabel limit rows = sorted.take limit := rfl
  rw [hreport]
  constructor
  · have hsplit := List.sum_take_add_sum_drop (sorted.map Counted.count) limit
    rw [← List.map_take] at hsplit
    omega
  · intro hfull
    rw [List.length_take] at hfull
    rw [List.take_of_length_le (by omega), htotal]

section Counts

variable {t : Tables}

/-- The rows of the day, blocked or not. -/
theorem length_domainRows (since : ℤ) :
    (domainRows t since true).length =
        (t.queries.rows.filter fun q => since ≤ q.ts).countP
          (fun q => q.status = "blocked".toList) ∧
      (domainRows t since false).length + (domainRows t since true).length =
        (t.queries.rows.filter fun q => since ≤ q.ts).length := by
  have hblocked : (domainRows t since true).length =
      (t.queries.rows.filter fun q => since ≤ q.ts).countP
        (fun q => q.status = "blocked".toList) := by
    rw [domainRows, List.countP_filter, ← List.countP_eq_length_filter]
    congr 1
    funext q
    rw [← Bool.decide_and]
    simp only [iff_true, and_comm]
  have hallowed : (domainRows t since false).length =
      (t.queries.rows.filter fun q => since ≤ q.ts).countP
        (fun q => ¬ q.status = "blocked".toList) := by
    rw [domainRows, List.countP_filter, ← List.countP_eq_length_filter]
    congr 1
    funext q
    rw [← Bool.decide_and]
    simp only [Bool.false_eq_true, iff_false, and_comm]
  refine ⟨hblocked, ?_⟩
  rw [hblocked, hallowed, Nat.add_comm]
  have hsplit := List.length_eq_countP_add_countP
    (fun q : QueryRecord => decide (q.status = "blocked".toList))
    (l := t.queries.rows.filter fun q => since ≤ q.ts)
  simp only [decide_eq_true_eq] at hsplit
  exact hsplit.symm

theorem length_clientRows (h : t.OneHolder) (since : ℤ) :
    (clientRows t since).length = (t.queries.rows.filter fun q => since ≤ q.ts).length := by
  rw [clientRows, joinDevices_eq_map h, List.filter_map, List.length_map]
  rfl

theorem sum_blocked_bucketed (width : ℤ) (rows : List QueryRecord) :
    ((bucketed width rows).map Bucket.blocked).sum =
      rows.countP fun q => q.status = "blocked".toList := by
  have hgroups : (bucketed width rows).map Bucket.blocked =
      ((Sql.groupBy (fun q => Buckets.start width q.ts) rows).insertionSort
        fun g g' => g.1 ≤ g'.1).map fun g => g.2.countP fun q => q.status = "blocked".toList := by
    rw [Sql.insertionSort_groupBy, bucketed, starts, List.map_map, List.map_map]
    rfl
  rw [hgroups, ← Sql.sum_countP_groupBy (fun q => Buckets.start width q.ts) rows]
  exact ((List.perm_insertionSort _ _).map _).sum_eq

/-- A sum over the devices, as they are listed. -/
theorem sum_devices (t : Tables) (now : ℤ) (column : DeviceRow → ℕ) :
    ((devices t now).map column).sum =
      (t.devices.rows.map fun d => column (countedRow t (now - 86400) d)).sum := by
  rw [devices_eq, List.map_map]
  exact ((List.perm_insertionSort _ t.devices.rows).map _).sum_eq

/-- The address of a query is held by a device, or by none. -/
theorem held_add_free (t : Tables) (since : ℤ) (p : QueryRecord → Bool) :
    (t.queries.rows.countP fun q =>
        (∃ d ∈ t.devices.rows, d.ip = some q.clientIp) ∧ since ≤ q.ts ∧ p q = true) +
      (t.queries.rows.countP fun q =>
        (∀ d ∈ t.devices.rows, d.ip ≠ some q.clientIp) ∧ since ≤ q.ts ∧ p q = true) =
      (t.queries.rows.filter fun q => since ≤ q.ts).countP p := by
  have hsplit := List.length_eq_countP_add_countP
    (fun q : QueryRecord => decide (∃ d ∈ t.devices.rows, d.ip = some q.clientIp))
    (l := t.queries.rows.filter fun q => decide (since ≤ q.ts) && p q)
  have hwindow : (t.queries.rows.filter fun q => since ≤ q.ts).countP p =
      (t.queries.rows.filter fun q => decide (since ≤ q.ts) && p q).length := by
    rw [List.countP_filter, List.countP_eq_length_filter]
    simp only [Bool.and_comm]
  rw [hwindow, hsplit, List.countP_filter, List.countP_filter]
  congr 1
  · congr 1
    funext q
    simp
  · congr 1
    funext q
    simp

end Counts

end Db

namespace Api

open Db

/-- At most how many rows a panel shows. -/
def Route.cap (route : Route) (p : RangeParams) : ℕ :=
  match route with
  | .queryTypes => 12
  | _ => max 1 (min (p.limit.getD 15).toNat 200)

/-- The panels, read at one moment. -/
structure Agrees (t : Tables) (now : Int64) : Prop where
  /-- A panel counts no query twice, and leaves one out only if it is full. -/
  shown_le : ∀ (picks : Picks) (route : Route) p,
    ((route.report picks t now p).map Counted.count).sum ≤ route.counted t now p
  shown : ∀ (picks : Picks) (route : Route) p, (route.report picks t now p).length < route.cap p →
    ((route.report picks t now p).map Counted.count).sum = route.counted t now p
  /-- What the panels of a day count is what the summary says. -/
  clients : ∀ p, p.window = 24 →
    Route.counted .topClients t now p = (summary t now.toInt now.toInt).total24h
  types : ∀ p, p.window = 24 →
    Route.counted .queryTypes t now p = (summary t now.toInt now.toInt).total24h
  blocked : ∀ p, p.window = 24 →
    Route.counted .topBlocked t now p = (summary t now.toInt now.toInt).blocked24h
  domains : ∀ p, p.window = 24 →
    Route.counted .topDomains t now p + (summary t now.toInt now.toInt).blocked24h =
      (summary t now.toInt now.toInt).total24h
  chart : ∀ width : Int64, ((Db.timeseries t now 24 width).map Bucket.blocked).sum =
      (summary t now.toInt now.toInt).blocked24h ∧
    ((Db.timeseries t now 24 width).map fun b => b.allowed + b.blocked).sum =
      (summary t now.toInt now.toInt).total24h
  /-- The devices have the queries from addresses that a device holds, blocked or not. -/
  devices : ((Db.devices t now.toInt).map DeviceRow.queries24h).sum +
      (t.queries.rows.countP fun q =>
        (∀ d ∈ t.devices.rows, d.ip ≠ some q.clientIp) ∧ now.toInt - 86400 ≤ q.ts) =
      (summary t now.toInt now.toInt).total24h
  devicesBlocked : ((Db.devices t now.toInt).map DeviceRow.blocked24h).sum +
      (t.queries.rows.countP fun q => (∀ d ∈ t.devices.rows, d.ip ≠ some q.clientIp) ∧
        now.toInt - 86400 ≤ q.ts ∧ q.status = "blocked".toList) =
      (summary t now.toInt now.toInt).blocked24h

theorem sum_routeReport (picks : Picks) (route : Route) (t : Tables) (now : Int64)
    (p : RangeParams) :
    ((route.report picks t now p).map Counted.count).sum ≤ route.counted t now p ∧
      ((route.report picks t now p).length < route.cap p →
        ((route.report picks t now p).map Counted.count).sum = route.counted t now p) := by
  cases route with
  | topDomains =>
    rw [Route.report, Api.topDomains, Db.topDomains]
    exact sum_report _ _ _ _
  | topBlocked =>
    rw [Route.report, Api.topBlocked, Db.topDomains]
    exact sum_report _ _ _ _
  | topClients =>
    rw [Route.report, Api.topClients, Db.topClients, topClientsSince]
    exact sum_report _ _ _ _
  | queryTypes =>
    rw [Route.report, Api.queryTypes, Db.queryTypes]
    exact sum_report _ _ _ _

section Day

variable {t : Tables} {now : Int64}

theorem toInt_sinceOf_day (hlow : 0 ≤ now.toInt) : (sinceOf now 24).toInt = now.toInt - 86400 :=
  toInt_sinceOf_of_clamped hlow (by decide) (by decide)

theorem agrees (h : t.OneHolder) (hts : ∀ q ∈ t.queries.rows, 0 ≤ q.ts) (hlow : 0 ≤ now.toInt) :
    Agrees t now := by
  have hday := toInt_sinceOf_day hlow
  refine ⟨fun picks route p => (sum_routeReport picks route t now p).1,
    fun picks route p => (sum_routeReport picks route t now p).2, ?_, ?_, ?_, ?_, ?_, ?_, ?_⟩
  · intro p hp
    rw [Route.counted, hp, hday]
    exact length_clientRows h _
  · intro p hp
    rw [Route.counted, hp, hday]
    rfl
  · intro p hp
    rw [Route.counted, hp, hday]
    exact (length_domainRows _).1
  · intro p hp
    obtain ⟨hblocked, htotal⟩ := length_domainRows (t := t) (now.toInt - 86400)
    rw [hblocked] at htotal
    rw [Route.counted, hp, hday]
    exact htotal
  · intro width
    rw [timeseries_eq hts, hday]
    refine ⟨sum_blocked_bucketed _ _, ?_⟩
    exact total_bucketed _ _
  · rw [sum_devices]
    -- every device counts the queries of its address, and the rest have none
    show (t.devices.rows.map (askedFrom t (now.toInt - 86400) fun _ => true)).sum + _ =
      (t.queries.rows.filter fun q => now.toInt - 86400 ≤ q.ts).length
    have hall := held_add_free t (now.toInt - 86400) fun _ => true
    rw [sum_askedFrom h, ← List.countP_true, ← hall]
    simp only [and_true]
  · rw [sum_devices]
    show (t.devices.rows.map (askedFrom t (now.toInt - 86400) isBlocked)).sum + _ =
      (t.queries.rows.filter fun q => now.toInt - 86400 ≤ q.ts).countP isBlocked
    have hall := held_add_free t (now.toInt - 86400) isBlocked
    rw [sum_askedFrom h, ← hall]
    simp only [isBlocked, decide_eq_true_eq]

end Day

/-- Whatever the writer has written and pruned, successfully or not. -/
theorem agrees_run (steps : List WriterStep) {now : Int64} (hlow : 0 ≤ now.toInt)
    (hts : ∀ q ∈ (Interleaving.run WriterStep.apply steps .fresh).queries.rows, 0 ≤ q.ts) :
    Agrees (Interleaving.run WriterStep.apply steps .fresh) now :=
  agrees (oneHolder_run steps) hts hlow

theorem agrees_run_chart :
    Agrees (Interleaving.run WriterStep.apply
      [.flush (fun _ => false) [asked 1699990000 .blocked, asked 1699990030 .cached],
        .prune 1700000000 14 4, .flush (fun n => n = 2) [asked 1699990060 .cached]] .fresh)
      1700000000 :=
  agrees_run _ (by decide) (by decide)

end Api

end Netwatch
