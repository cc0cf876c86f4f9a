import Netwatch.Db.DevicesTable
import Netwatch.Replay.Log

/-!
# Devices as logs

A row of `devices` is what is left of the sightings of its MAC, and of the sightings of other
MACs at its address. However the ops are cut into batches, the tables come out the same.

## Main definitions

- `flushAll` — batches one after the other, all of which have to succeed
- `FoldOf` — a row as the fold of its sightings, column by column

## Main results

- `flushAll_eq_some_iff` — what batches that all succeed leave in the tables
- `foldsSightings` — every row is that fold, in whatever batches it was written
-/

namespace Netwatch.Db

open RustStd Replay Interleaving

/-- A batch, with the statement of it that fails, if one does. -/
structure Batch where
  fails : ℕ → Bool
  ops : List WriteOp

/-- The batches one after the other; nothing if one of them fails. -/
def flushAll : List Batch → Tables → Option Tables
  | [], t => some t
  | batch :: batches, t =>
    match flush batch.fails t batch.ops with
    | (true, t') => flushAll batches t'
    | (false, _) => none

/-- All succeed exactly if no statement of any of them fails, and then every op is executed. -/
theorem flushAll_eq_some_iff {batches : List Batch} {t t' : Tables} :
    flushAll batches t = some t' ↔
      (∀ batch ∈ batches, Undisturbed batch.fails batch.ops) ∧
        t' = t.executeAll (batches.flatMap Batch.ops) := by
  induction batches generalizing t with
  | nil =>
    rw [flushAll, Option.some.injEq, eq_comm]
    exact (and_iff_right fun _ h => absurd h List.not_mem_nil).symm
  | cons batch batches ih =>
    have hfst := @flush_fst_iff batch.fails t batch.ops
    rw [flushAll, List.forall_mem_cons, List.flatMap_cons, Tables.executeAll, List.foldl_append]
    obtain hflush | hflush := flush_cases batch.fails t batch.ops
    · rw [hflush] at hfst ⊢
      have hnot : ¬ Undisturbed batch.fails batch.ops := fun h => Bool.false_ne_true (hfst.mpr h)
      simp [hnot]
    · rw [hflush] at hfst ⊢
      have hok : Undisturbed batch.fails batch.ops := hfst.mp rfl
      rw [and_iff_right hok]
      exact ih

/-! ### What should be in a row -/

def WriteOp.sighting : WriteOp → Option DeviceOp
  | .device d => some d
  | _ => none

/-- The sightings among the ops, in order. -/
def sightings (ops : List WriteOp) : List DeviceOp := ops.filterMap WriteOp.sighting

/-- The sightings of one device. -/
def ofDevice (mac : Str) (log : List DeviceOp) : List DeviceOp := log.filter fun d => d.mac = mac

/-- The columns that only a device's own sightings, `own`, decide. -/
structure Columns (own : List DeviceOp) (r : DeviceRecord) : Prop where
  hostname : r.hostname = lastSent DeviceOp.hostname own
  vendor : r.vendor = lastSent DeviceOp.vendor own
  firstSeen : own.head?.map DeviceOp.ts = some r.firstSeen
  lastSeen : own.getLast?.map DeviceOp.ts = some r.lastSeen
  randomized : own.getLast?.map DeviceOp.randomized = some r.randomized

/-- A row is the fold of the sightings in `log`. -/
structure FoldOf (mac : Str) (log : List DeviceOp) (r : DeviceRecord) : Prop
    extends Columns (ofDevice mac log) r where
  /-- No address was ever sent. -/
  ip_never : (∀ d ∈ log, d.mac = mac → d.ip = none) → r.ip = none
  /-- The last address that was sent, unless another device was seen there later. -/
  ip_last : ∀ before d after ip, log = before ++ d :: after → d.mac = mac → d.ip = some ip →
    (∀ e ∈ after, e.mac = mac → e.ip = none) →
      r.ip = if ∃ e ∈ after, e.mac ≠ mac ∧ e.ip = some ip then none else some ip

/-- `t` is what fresh tables come to in whatever batches the ops are written, and there the row
of every device that was seen is the fold of its sightings. -/
structure FoldsSightings (ops : List WriteOp) (t : Tables) : Prop where
  reached : ∀ batches, batches.flatMap Batch.ops = ops →
    (∀ batch ∈ batches, Undisturbed batch.fails batch.ops) → flushAll batches .fresh = some t
  partition : ∀ batches t', batches.flatMap Batch.ops = ops → flushAll batches .fresh = some t' →
    t' = t
  row : ∀ d, WriteOp.device d ∈ ops →
    ∃ r, t.devices.get d.mac = some r ∧ FoldOf d.mac (sightings ops) r

/-! ### What one op does to the rows -/

namespace Tables

/-- What the upsert inserts for a device that has no row. -/
def newRow (d : DeviceOp) : DeviceRecord :=
  { mac := d.mac, ip := d.ip, hostname := d.hostname, vendor := d.vendor
    randomized := d.randomized, firstSeen := d.ts, lastSeen := d.ts }

/-- A row of another device after a sighting. -/
def release (d : DeviceOp) (r : DeviceRecord) : DeviceRecord :=
  if d.ip.isSome ∧ r.ip = d.ip then { r with ip := none } else r

theorem release_eq_self {d : DeviceOp} (h : d.ip = none) (r : DeviceRecord) :
    release d r = r := by
  simp [release, h]

/-- Before the upsert the other devices give the address up. -/
theorem get_releaseIp_elim (d : DeviceOp) (t : Tables) (mac : Str) :
    (d.ip.elim t fun ip => t.releaseIp ip d.mac).devices.get mac =
      if mac = d.mac then t.devices.get mac else (t.devices.get mac).map (release d) := by
  cases hip : d.ip with
  | none =>
    have hid : release d = id := funext (release_eq_self hip)
    rw [Option.elim_none, hid, Option.map_id, id, ite_self]
  | some ip =>
    rw [Option.elim_some, releaseIp, Sql.Table.get_update]
    cases hget : t.devices.get mac with
    | none => rw [Option.map_none, Option.map_none, ite_self]
    | some r =>
      have hkey : r.mac = mac := (Sql.Table.get_eq_some_iff.mp hget).2
      by_cases hmac : mac = d.mac
      · simp [hkey, hmac]
      · simp [hkey, hmac, release, hip]

theorem get_execute_device (d : DeviceOp) (t : Tables) (mac : Str) :
    (t.execute (.device d)).devices.get mac =
      if mac = d.mac then some ((t.devices.get mac).elim (newRow d) (coalesce d))
      else (t.devices.get mac).map (release d) := by
  rw [execute_device, upsertDevice, Sql.Table.get_upsert, get_releaseIp_elim, get_releaseIp_elim,
    if_pos rfl]
  by_cases hmac : mac = d.mac
  · rw [if_pos hmac, if_pos hmac, hmac]
    rfl
  · rw [if_neg hmac, if_neg hmac, if_neg hmac]

/-- On the addresses a sighting is a claim. -/
theorem ipOf_execute_device_eq_claim (d : DeviceOp) (t : Tables) :
    (t.execute (.device d)).ipOf = claim DeviceOp.mac DeviceOp.ip d t.ipOf := by
  funext mac
  exact ipOf_execute_device d t mac

end Tables

/-! ### The columns -/

namespace Columns

variable {own : List DeviceOp} {r : DeviceRecord}

theorem new (d : DeviceOp) : Columns [d] (Tables.newRow d) where
  hostname := (lastSent_singleton DeviceOp.hostname d).symm
  vendor := (lastSent_singleton DeviceOp.vendor d).symm
  firstSeen := rfl
  lastSeen := rfl
  randomized := rfl

theorem coalesce (h : Columns own r) (d : DeviceOp) :
    Columns (own ++ [d]) (Tables.coalesce d r) where
  hostname := by rw [lastSent_append_singleton, ← h.hostname]; rfl
  vendor := by rw [lastSent_append_singleton, ← h.vendor]; rfl
  firstSeen := by
    obtain ⟨first, hfirst, -⟩ := Option.map_eq_some_iff.mp h.firstSeen
    rw [List.head?_append, hfirst, Option.some_or, ← hfirst]
    exact h.firstSeen
  lastSeen := by rw [List.getLast?_concat]; rfl
  randomized := by rw [List.getLast?_concat]; rfl

theorem release (h : Columns own r) (d : DeviceOp) : Columns own (Tables.release d r) := by
  rw [Tables.release]
  split
  · exact ⟨h.hostname, h.vendor, h.firstSeen, h.lastSeen, h.randomized⟩
  · exact h

end Columns

theorem ofDevice_concat (mac : Str) (log : List DeviceOp) (d : DeviceOp) :
    ofDevice mac (log ++ [d]) =
      if d.mac = mac then ofDevice mac log ++ [d] else ofDevice mac log := by
  rw [ofDevice, List.filter_append, ofDevice]
  by_cases h : d.mac = mac <;> simp [h]

/-! ### Every row is a fold -/

/-- What the rows of `devices` are after the sightings in `log`. -/
structure Folded (log : List DeviceOp) (t : Tables) : Prop where
  present : ∀ d ∈ log, t.devices.get d.mac ≠ none
  columns : ∀ mac r, t.devices.get mac = some r → Columns (ofDevice mac log) r
  ip : t.ipOf = run (claim DeviceOp.mac DeviceOp.ip) log fun _ => none

theorem folded_fresh : Folded [] .fresh where
  present := fun _ hd => absurd hd List.not_mem_nil
  columns := fun _ _ hget => by cases hget
  ip := rfl

namespace Folded

variable {log : List DeviceOp} {t : Tables}

theorem ofDevice_eq_nil (h : Folded log t) {mac : Str} (hget : t.devices.get mac = none) :
    ofDevice mac log = [] := by
  rw [ofDevice, List.filter_eq_nil_iff]
  intro d hd hmac
  rw [decide_eq_true_eq] at hmac
  exact h.present d hd (hmac ▸ hget)

theorem execute_device (h : Folded log t) (d : DeviceOp) :
    Folded (log ++ [d]) (t.execute (.device d)) where
  present := by
    intro e he
    rw [Tables.get_execute_device]
    split
    · exact Option.some_ne_none _
    · next hmac =>
      rcases List.mem_append.mp he with hold | hnew
      · rw [Ne, Option.map_eq_none_iff]
        exact h.present e hold
      · exact absurd (congrArg DeviceOp.mac (List.mem_singleton.mp hnew)) hmac
  columns := by
    intro mac r hget
    rw [Tables.get_execute_device] at hget
    rw [ofDevice_concat]
    -- the device itself, or one that may have to release the address
    by_cases hmac : mac = d.mac
    · subst hmac
      rw [if_pos rfl] at hget ⊢
      cases hold : t.devices.get d.mac with
      | none =>
        rw [hold] at hget
        obtain rfl := Option.some.inj hget
        rw [h.ofDevice_eq_nil hold]
        exact Columns.new d
      | some r' =>
        rw [hold] at hget
        obtain rfl := Option.some.inj hget
        exact (h.columns d.mac r' hold).coalesce d
    · rw [if_neg hmac] at hget
      rw [if_neg fun heq => hmac heq.symm]
      obtain ⟨r', hold, rfl⟩ := Option.map_eq_some_iff.mp hget
      exact (h.columns mac r' hold).release d
  ip := by
    rw [Tables.ipOf_execute_device_eq_claim, h.ip, run_append]
    rfl

theorem of_devices_eq (h : Folded log t) {t' : Tables} (heq : t'.devices = t.devices) :
    Folded log t' where
  present := by rw [heq]; exact h.present
  columns := by rw [heq]; exact h.columns
  ip := by
    rw [← h.ip]
    funext mac
    rw [Tables.ipOf, Tables.ipOf, heq]

theorem execute (h : Folded log t) (op : WriteOp) :
    Folded (log ++ op.sighting.toList) (t.execute op) := by
  by_cases hop : ∃ d, op = .device d
  · obtain ⟨d, rfl⟩ := hop
    exact h.execute_device d
  · have hnone : op.sighting = none := by
      cases op with
      | device d => exact absurd ⟨d, rfl⟩ hop
      | _ => rfl
    rw [hnone, Option.toList_none, List.append_nil]
    exact h.of_devices_eq (Tables.devices_execute_of_ne_device (fun d hd => hop ⟨d, hd⟩) t)

theorem executeAll (h : Folded log t) (ops : List WriteOp) :
    Folded (log ++ sightings ops) (t.executeAll ops) := by
  induction ops generalizing log t with
  | nil =>
    rw [sightings, List.filterMap_nil, List.append_nil]
    exact h
  | cons op ops ih =>
    have hcons : sightings (op :: ops) = op.sighting.toList ++ sightings ops := by
      rw [sightings, List.filterMap_cons]
      cases op.sighting <;> rfl
    rw [hcons, ← List.append_assoc]
    exact ih (h.execute op)

theorem foldOf (h : Folded log t) {mac : Str} {r : DeviceRecord}
    (hget : t.devices.get mac = some r) : FoldOf mac log r where
  toColumns := h.columns mac r hget
  ip_never := by
    intro hnever
    have hip : t.ipOf mac = r.ip := by rw [Tables.ipOf, hget, Option.bind_some]
    rw [← hip, h.ip]
    exact run_claim_of_none rfl hnever
  ip_last := by
    intro before d after ip hlog hmac hsent hlast
    have hip : t.ipOf mac = r.ip := by rw [Tables.ipOf, hget, Option.bind_some]
    rw [← hip, h.ip, hlog]
    exact run_claim_of_last hmac hsent hlast

end Folded

/-- Batches of which no statement fails all succeed, and leave the folds. -/
theorem foldsSightings {batches : List Batch}
    (h : ∀ batch ∈ batches, Undisturbed batch.fails batch.ops) :
    ∃ t, flushAll batches .fresh = some t ∧ FoldsSightings (batches.flatMap Batch.ops) t := by
  refine ⟨_, flushAll_eq_some_iff.mpr ⟨h, rfl⟩, ?_, ?_, ?_⟩
  · intro batches' hops h'
    rw [flushAll_eq_some_iff, hops]
    exact ⟨h', rfl⟩
  · intro batches' t' hops hflush
    rw [(flushAll_eq_some_iff.mp hflush).2, hops]
  · intro d hd
    have hfolded := folded_fresh.executeAll (batches.flatMap Batch.ops)
    have hmem : d ∈ sightings (batches.flatMap Batch.ops) :=
      List.mem_filterMap.mpr ⟨.device d, hd, rfl⟩
    obtain ⟨r, hget⟩ := Option.ne_none_iff_exists'.mp (hfolded.present d hmem)
    exact ⟨r, hget, hfolded.foldOf hget⟩

section Example

def phone (ip : Option Str) (hostname : Option Str) (ts : ℤ) : DeviceOp where
  mac := "aa:bb:cc:00:00:01".toList
  ip := ip
  hostname := hostname
  vendor := none
  randomized := false
  ts := ts

def laptop (ip : Str) (ts : ℤ) : DeviceOp where
  mac := "a2:bb:cc:00:00:02".toList
  ip := some ip
  hostname := none
  vendor := none
  randomized := true
  ts := ts

/-- The laptop is seen at the phone's address; a bare sighting does not bring it back. -/
def takeover : List Batch :=
  [⟨fun _ => false, [.device (phone (some "10.0.0.5".toList) (some "phone".toList) 1)]⟩,
    ⟨fun _ => false, [.device (laptop "10.0.0.5".toList 2), .device (phone none none 3)]⟩]

theorem foldsSightings_takeover :
    ∃ t, flushAll takeover .fresh = some t ∧
      FoldsSightings (takeover.flatMap Batch.ops) t := by
  refine foldsSightings fun batch hbatch => ?_
  rcases List.mem_pair.mp hbatch with rfl | rfl <;> exact fun _ _ => rfl

example :
    (flushAll takeover .fresh).map
        (fun t => t.devices.rows.map fun r => (r.ip, r.hostname, r.firstSeen, r.lastSeen)) =
      some [(none, some "phone".toList, 1, 3), (some "10.0.0.5".toList, none, 2, 2)] := by
  decide

end Example

end Netwatch.Db
