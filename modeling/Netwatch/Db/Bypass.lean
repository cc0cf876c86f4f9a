import Netwatch.Db.DevicesTable
import Netwatch.Sql.Query

/-!
# Who bypasses the resolver

`bypass_suspects` of `db.rs` looks for devices that are present and ask for almost nothing. The
log names addresses and not devices, so that the queries of a device are counted by the address
it has at the time of the report, whoever had that address when they were sent.

## Main definitions

- `presentDevices`, `bypassSuspects` — the two levels of the `SELECT`
- `Lan` — the tables, and who really sent what
- `CountsExact` — the counts are those of the devices
- `Settles` — an address changes hands without disturbing the counts

## Main results

- `sentFrom_add_strays` — what a count is made of
- `countsExact_iff` — counts are exact all along exactly if no change of address disturbs them
-/

namespace Netwatch.Db

open RustStd Dns Interleaving

/-- A device that is present on the network but barely resolving anything. -/
structure BypassSuspect where
  mac : Str
  ip : Option Str
  hostname : Option Str
  vendor : Option Str
  lastSeen : ℤ
  queries : ℕ
  deriving DecidableEq

def bypassCutoff (now : ℤ) (windowHours : ℕ) : ℤ := now - windowHours * 3600

/-- `SELECT COUNT(*) FROM queries q WHERE q.client_ip = d.ip AND q.ts >= ?1` -/
def windowCount (t : Tables) (cutoff : ℤ) (ip : Str) : ℕ :=
  t.queries.rows.countP fun q => q.clientIp = ip ∧ cutoff ≤ q.ts

/-- The inner `SELECT`: devices with an address that have been seen, with their counts. -/
def presentDevices (t : Tables) (cutoff : ℤ) : List BypassSuspect :=
  (t.devices.rows.filter fun d => cutoff ≤ d.lastSeen ∧ d.ip.isSome).map fun d =>
    { mac := d.mac
      ip := d.ip
      hostname := d.hostname
      vendor := d.vendor
      lastSeen := d.lastSeen
      queries := d.ip.elim 0 (windowCount t cutoff) }

/-- `ORDER BY queries ASC, last_seen DESC`. -/
def MoreSuspect (s s' : BypassSuspect) : Prop :=
  s.queries < s'.queries ∨ s.queries = s'.queries ∧ s'.lastSeen ≤ s.lastSeen

instance : DecidableRel MoreSuspect := fun s s' =>
  inferInstanceAs (Decidable (s.queries < s'.queries ∨
    s.queries = s'.queries ∧ s'.lastSeen ≤ s.lastSeen))

def bypassSuspects (t : Tables) (now : ℤ) (windowHours : ℕ) (maxQueries : ℤ) (limit : ℕ) :
    List BypassSuspect :=
  let silent := (presentDevices t (bypassCutoff now windowHours)).filter fun s =>
    s.queries ≤ maxQueries
  Sql.page limit 0 (silent.insertionSort MoreSuspect)

/-! ### Devices and their addresses -/

/-- A device shows up at an address, or sends a query. -/
inductive LanEvent
  | sighting (d : DeviceOp)
  | query (mac : Str) (e : QueryEvent)

/-- The tables, and what each device has sent. -/
structure Lan where
  tables : Tables
  sent : List (Str × QueryEvent)

namespace Lan

def step : LanEvent → Lan → Lan
  | .sighting d, w => { w with tables := w.tables.execute (.device d) }
  | .query mac e, w =>
    { tables := w.tables.execute (.query e)
      sent := w.sent ++ [(mac, e)] }

variable (w : Lan) (cutoff : ℤ) (mac ip : Str)

def sentBy : ℕ := w.sent.countP fun s => s.1 = mac ∧ cutoff ≤ s.2.ts

/-- Queries of other devices from this address. -/
def strangers : ℕ := w.sent.countP fun s => s.1 ≠ mac ∧ s.2.clientIp = ip ∧ cutoff ≤ s.2.ts

/-- Queries of the device from other addresses. -/
def strays : ℕ := w.sent.countP fun s => s.1 = mac ∧ s.2.clientIp ≠ ip ∧ cutoff ≤ s.2.ts

end Lan

/-- Inside the window a sighting has an address, and a query is sent from the address that its
device then holds. -/
def LanEvent.Genuine (cutoff : ℤ) : LanEvent → Lan → Prop
  | .sighting d, _ => d.ip.isSome = true ∧ cutoff ≤ d.ts
  | .query mac e, w => w.tables.ipOf mac = some e.clientIp ∧ cutoff ≤ e.ts

/-- As many queries of others have come from the address as the device has sent from other
ones, as when there are none of either kind. -/
def LanEvent.Settles (cutoff : ℤ) : LanEvent → Lan → Prop
  | .sighting d, w => ∀ ip, d.ip = some ip →
    w.strangers cutoff d.mac ip = w.strays cutoff d.mac ip
  | .query _ _, _ => True

/-- The counts of the report are those of the devices, and no busy device is in it. -/
structure CountsExact (now : ℤ) (windowHours : ℕ) (w : Lan) : Prop where
  counted : ∀ s ∈ presentDevices w.tables (bypassCutoff now windowHours),
    s.queries = w.sentBy (bypassCutoff now windowHours) s.mac
  busy : ∀ maxQueries limit, ∀ s ∈ bypassSuspects w.tables now windowHours maxQueries limit,
    (w.sentBy (bypassCutoff now windowHours) s.mac : ℤ) ≤ maxQueries

/-! ### What a count is made of -/

namespace Lan

variable {w : Lan} {cutoff : ℤ} {mac ip : Str}

/-- The queries that came from an address. -/
def sentFrom (w : Lan) (cutoff : ℤ) (ip : Str) : ℕ :=
  w.sent.countP fun s => s.2.clientIp = ip ∧ cutoff ≤ s.2.ts

theorem countP_split {α : Type} (l : List α) (P Q : α → Prop) [DecidablePred P] [DecidablePred Q] :
    l.countP P = l.countP (fun a => Q a ∧ P a) + l.countP fun a => ¬ Q a ∧ P a := by
  rw [List.countP_eq_countP_filter_add l P Q, List.countP_filter, List.countP_filter]
  congr 1
  · refine List.countP_congr fun a _ => ?_
    simp [and_comm]
  · refine List.countP_congr fun a _ => ?_
    simp [and_comm]

/-- The queries from an address are those of the device and of others, and the device has sent
the rest from elsewhere. -/
theorem sentFrom_add_strays (w : Lan) (cutoff : ℤ) (mac ip : Str) :
    w.sentFrom cutoff ip + w.strays cutoff mac ip =
      w.sentBy cutoff mac + w.strangers cutoff mac ip := by
  have hfrom : w.sentFrom cutoff ip =
      (w.sent.countP fun s => s.1 = mac ∧ s.2.clientIp = ip ∧ cutoff ≤ s.2.ts) +
        w.strangers cutoff mac ip := countP_split _ _ _
  have hby : w.sentBy cutoff mac =
      (w.sent.countP fun s => s.2.clientIp = ip ∧ s.1 = mac ∧ cutoff ≤ s.2.ts) +
        w.sent.countP fun s => ¬ s.2.clientIp = ip ∧ s.1 = mac ∧ cutoff ≤ s.2.ts :=
    countP_split _ _ _
  simp only [and_left_comm (b := _ = mac)] at hby
  rw [hfrom, hby, strays]
  simp only [ne_eq]
  omega

end Lan

/-! ### One event -/

theorem windowCount_query (t : Tables) (cutoff : ℤ) (e : QueryEvent) (ip : Str) :
    windowCount (t.execute (.query e)) cutoff ip =
      windowCount t cutoff ip + if e.clientIp = ip ∧ cutoff ≤ e.ts then 1 else 0 := by
  show (t.queries.rows ++ [_]).countP _ = _
  rw [List.countP_append, List.countP_singleton, windowCount]
  simp

theorem queries_execute_device (t : Tables) (d : DeviceOp) :
    (t.execute (.device d)).queries = t.queries := by
  rw [Tables.execute_device]
  cases d.ip <;> rfl

theorem get_execute_device (t : Tables) {d : DeviceOp} {ip : Str} (hip : d.ip = some ip) :
    ∃ r, (t.execute (.device d)).devices.get d.mac = some r ∧ r.ip = some ip ∧
      r.lastSeen = d.ts := by
  rw [Tables.execute_device, hip, Option.elim_some, Tables.upsertDevice, Sql.Table.get_upsert,
    if_pos rfl]
  refine ⟨_, rfl, ?_⟩
  cases (t.releaseIp ip d.mac).devices.get d.mac with
  | none => exact ⟨hip, rfl⟩
  | some r => exact ⟨by rw [Option.elim_some, Tables.coalesce, hip]; rfl, rfl⟩

/-- Every address in the table has the queries of its device. -/
structure Tallied (cutoff : ℤ) (w : Lan) : Prop where
  oneHolder : w.tables.OneHolder
  logged : ∀ ip, windowCount w.tables cutoff ip = w.sentFrom cutoff ip
  settled : ∀ mac ip, w.tables.ipOf mac = some ip →
    w.strangers cutoff mac ip = w.strays cutoff mac ip

theorem windowCount_eq_iff {cutoff : ℤ} {w : Lan} {mac ip : Str}
    (hlogged : windowCount w.tables cutoff ip = w.sentFrom cutoff ip) :
    windowCount w.tables cutoff ip = w.sentBy cutoff mac ↔
      w.strangers cutoff mac ip = w.strays cutoff mac ip := by
  have hsum := w.sentFrom_add_strays cutoff mac ip
  rw [hlogged]
  omega

theorem tallied_sighting {cutoff : ℤ} {w : Lan} {d : DeviceOp} (h : Tallied cutoff w)
    (hsettles : (LanEvent.sighting d).Settles cutoff w) :
    Tallied cutoff (w.step (.sighting d)) := by
  refine ⟨Tables.oneHolder_execute _ h.oneHolder, fun ip => ?_, fun mac ip hheld => ?_⟩
  · show windowCount (w.tables.execute (.device d)) cutoff ip = w.sentFrom cutoff ip
    rw [windowCount, queries_execute_device]
    exact h.logged ip
  · show w.strangers cutoff mac ip = w.strays cutoff mac ip
    have hheld := Tables.ipOf_execute_device_eq_some_iff.mp hheld
    split at hheld
    · next hip =>
      rw [hheld]
      exact hsettles ip hip
    · exact h.settled mac ip hheld.1

/-- A query counts for its device and for the address, and for no other pair of the two. -/
theorem tallied_query {cutoff : ℤ} {w : Lan} {m : Str} {e : QueryEvent} (h : Tallied cutoff w)
    (hsource : w.tables.ipOf m = some e.clientIp) : Tallied cutoff (w.step (.query m e)) := by
  refine ⟨Tables.oneHolder_execute _ h.oneHolder, fun ip => ?_, fun mac ip hheld => ?_⟩
  · show windowCount (w.tables.execute (.query e)) cutoff ip =
      (w.sent ++ [(m, e)]).countP _
    rw [windowCount_query, h.logged, Lan.sentFrom, List.countP_append, List.countP_singleton]
    simp
  · have hheld : w.tables.ipOf mac = some ip := hheld
    have hpair : m = mac ↔ e.clientIp = ip := by
      constructor
      · rintro rfl
        exact Option.some.inj (hsource.symm.trans hheld)
      · rintro rfl
        exact Tables.oneHolder_iff.mp h.oneHolder m mac _ hsource hheld
    have hsettled := h.settled mac ip hheld
    show (w.sent ++ [(m, e)]).countP _ = (w.sent ++ [(m, e)]).countP _
    rw [List.countP_append, List.countP_append, List.countP_singleton, List.countP_singleton]
    rw [Lan.strangers, Lan.strays] at hsettled
    rw [hsettled]
    by_cases hm : m = mac
    · simp [hm, hpair.mp hm]
    · simp [hm, mt hpair.mpr hm]

theorem tallied_step {cutoff : ℤ} {w : Lan} (e : LanEvent) (hgenuine : e.Genuine cutoff w)
    (hsettles : e.Settles cutoff w) (h : Tallied cutoff w) : Tallied cutoff (w.step e) := by
  cases e with
  | sighting d => exact tallied_sighting h hsettles
  | query m e => exact tallied_query h hgenuine.1

theorem mem_presentDevices {t : Tables} {cutoff : ℤ} {s : BypassSuspect} :
    s ∈ presentDevices t cutoff ↔ ∃ r ∈ t.devices.rows, ∃ ip, r.ip = some ip ∧
      cutoff ≤ r.lastSeen ∧ s = ⟨r.mac, r.ip, r.hostname, r.vendor, r.lastSeen,
        windowCount t cutoff ip⟩ := by
  simp only [presentDevices, List.mem_map, List.mem_filter, decide_eq_true_eq]
  constructor
  · rintro ⟨r, ⟨hr, hseen, hip⟩, rfl⟩
    obtain ⟨ip, hip⟩ := Option.isSome_iff_exists.mp hip
    exact ⟨r, hr, ip, hip, hseen, by rw [hip]; rfl⟩
  · rintro ⟨r, hr, ip, hip, hseen, rfl⟩
    exact ⟨r, ⟨hr, hseen, by rw [hip]; rfl⟩, by rw [hip]; rfl⟩

theorem mem_bypassSuspects {t : Tables} {now : ℤ} {windowHours : ℕ} {maxQueries : ℤ} {limit : ℕ}
    {s : BypassSuspect} (hs : s ∈ bypassSuspects t now windowHours maxQueries limit) :
    s ∈ presentDevices t (bypassCutoff now windowHours) ∧ (s.queries : ℤ) ≤ maxQueries := by
  have hsorted := List.mem_of_mem_drop (List.mem_of_mem_take hs)
  rw [List.mem_insertionSort] at hsorted
  obtain ⟨hpresent, hfew⟩ := List.mem_filter.mp hsorted
  exact ⟨hpresent, of_decide_eq_true hfew⟩

variable {now : ℤ} {windowHours : ℕ}

theorem countsExact_of_tallied {w : Lan} (h : Tallied (bypassCutoff now windowHours) w) :
    CountsExact now windowHours w := by
  have hcounted : ∀ s ∈ presentDevices w.tables (bypassCutoff now windowHours),
      s.queries = w.sentBy (bypassCutoff now windowHours) s.mac := by
    intro s hs
    obtain ⟨r, hr, ip, hip, -, rfl⟩ := mem_presentDevices.mp hs
    have hheld : w.tables.ipOf r.mac = some ip := Tables.ipOf_eq_some_iff.mpr ⟨r, hr, rfl, hip⟩
    exact (windowCount_eq_iff (h.logged ip)).mpr (h.settled r.mac ip hheld)
  refine ⟨hcounted, fun maxQueries limit s hs => ?_⟩
  obtain ⟨hpresent, hfew⟩ := mem_bypassSuspects hs
  rw [← hcounted s hpresent]
  exact hfew

/-- A sighting puts its device among those that are counted. -/
theorem settles_of_countsExact {w : Lan} {e : LanEvent}
    (hgenuine : e.Genuine (bypassCutoff now windowHours) w)
    (h : Tallied (bypassCutoff now windowHours) w)
    (hafter : CountsExact now windowHours (w.step e)) :
    e.Settles (bypassCutoff now windowHours) w := by
  cases e with
  | query m e => trivial
  | sighting d =>
    intro ip hip
    obtain ⟨r, hget, hrow, hseen⟩ := get_execute_device w.tables hip
    obtain ⟨hr, hmac⟩ := Sql.Table.get_eq_some_iff.mp hget
    have hpresent := mem_presentDevices.mpr ⟨r, hr, ip, hrow, hseen ▸ hgenuine.2, rfl⟩
    have hcount := hafter.counted _ hpresent
    have hqueries : windowCount (w.tables.execute (.device d)) (bypassCutoff now windowHours) ip =
        windowCount w.tables (bypassCutoff now windowHours) ip := by
      rw [windowCount, queries_execute_device, windowCount]
    dsimp only at hcount
    rw [hqueries, hmac] at hcount
    exact (windowCount_eq_iff (h.logged ip)).mp hcount

/-- In every history inside the window the counts are exact all along exactly if no device
changes its address while other queries count there, or its own do not. -/
theorem countsExact_iff {t : Tables} (hone : t.OneHolder)
    (hbefore : ∀ q ∈ t.queries.rows, q.ts < bypassCutoff now windowHours) {events : List LanEvent}
    (hgenuine : Along Lan.step (LanEvent.Genuine (bypassCutoff now windowHours)) events ⟨t, []⟩) :
    (∀ n, CountsExact now windowHours (run Lan.step (events.take n) ⟨t, []⟩)) ↔
      Along Lan.step (LanEvent.Settles (bypassCutoff now windowHours)) events ⟨t, []⟩ := by
  have hstart : Tallied (bypassCutoff now windowHours) ⟨t, []⟩ := by
    refine ⟨hone, fun ip => ?_, fun _ _ _ => rfl⟩
    refine List.countP_eq_zero.mpr fun q hq => ?_
    have hold := hbefore q hq
    simp [hold]
  exact (hgenuine.iff_forall_take (fun _ => countsExact_of_tallied)
    (fun e _ hg hs h => tallied_step e hg hs h)
    (fun _ _ hg h hafter => settles_of_countsExact hg h hafter) hstart).symm

/-! ### A lease that moves -/

instance (cutoff : ℤ) (e : LanEvent) (w : Lan) : Decidable (e.Genuine cutoff w) :=
  match e with
  | .sighting d => inferInstanceAs (Decidable (d.ip.isSome = true ∧ cutoff ≤ d.ts))
  | .query mac e =>
    inferInstanceAs (Decidable (w.tables.ipOf mac = some e.clientIp ∧ cutoff ≤ e.ts))

def laptopMac : Str := "aa:bb:cc:00:00:01".toList

def seenAt (mac ip : Str) : LanEvent :=
  .sighting
    { mac, ip := some ip, hostname := none, vendor := none, randomized := false, ts := 90000 }

def asks (mac ip : Str) : LanEvent :=
  .query mac
    { ts := 90000, clientIp := ip, domain := "example.com".toList, qtype := "A".toList
      status := .forwarded, elapsedMs := some 5, answer := none, blocklist := none }

def onlyLaptopAsks : List LanEvent :=
  [seenAt laptopMac "192.168.1.50".toList,
    seenAt "aa:bb:cc:00:00:02".toList "192.168.1.51".toList,
    asks laptopMac "192.168.1.50".toList]

theorem countsExact_iff_laptop :
    CountsExact 90000 24 (run Lan.step onlyLaptopAsks ⟨.fresh, []⟩) := by
  have hgenuine : Along Lan.step (LanEvent.Genuine (bypassCutoff 90000 24)) onlyLaptopAsks
      ⟨.fresh, []⟩ := by decide
  refine (countsExact_iff oneHolder_fresh (fun q hq => ?_) hgenuine).mpr
    ⟨fun ip _ => rfl, fun ip _ => rfl, trivial, trivial⟩ 3
  cases hq

/-- Six queries, and then a new lease. -/
def laptopMoves : List LanEvent :=
  seenAt laptopMac "192.168.1.50".toList ::
    List.replicate 6 (asks laptopMac "192.168.1.50".toList) ++
      [seenAt laptopMac "192.168.1.60".toList]

/-- The busy laptop is listed as if it had not asked anything. -/
theorem busy_suspect :
    Along Lan.step (LanEvent.Genuine (bypassCutoff 90000 24)) laptopMoves ⟨.fresh, []⟩ ∧
      (run Lan.step laptopMoves ⟨.fresh, []⟩).sentBy (bypassCutoff 90000 24) laptopMac = 6 ∧
      bypassSuspects (run Lan.step laptopMoves ⟨.fresh, []⟩).tables 90000 24 5 20 =
        [⟨laptopMac, some "192.168.1.60".toList, none, none, 90000, 0⟩] ∧
      ¬ ∀ n, CountsExact 90000 24 (run Lan.step (laptopMoves.take n) ⟨.fresh, []⟩) := by
  have hsent : (run Lan.step laptopMoves ⟨.fresh, []⟩).sentBy (bypassCutoff 90000 24) laptopMac =
      6 := by decide
  have hlisted : bypassSuspects (run Lan.step laptopMoves ⟨.fresh, []⟩).tables 90000 24 5 20 =
      [⟨laptopMac, some "192.168.1.60".toList, none, none, 90000, 0⟩] := by decide
  refine ⟨by decide, hsent, hlisted, fun h => ?_⟩
  have hfew := (h 8).busy 5 20 _ (hlisted ▸ List.mem_singleton_self _)
  have hmany : (6 : ℤ) ≤ 5 := hfew
  exact absurd hmany (by decide)

end Netwatch.Db
