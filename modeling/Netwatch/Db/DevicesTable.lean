import Netwatch.Db.Tables
import Netwatch.Interleaving.Run

/-!
# One device per address

`devices.ip` has no uniqueness constraint. What keeps two rows from holding one address is
that a sighting with an address first takes it from every other row, in the transaction that
upserts its own.

## Main results

- `ipOf_execute_device` — the addresses after one sighting
- `oneHolder_run` — after any batches at most one row holds an address
-/

namespace Netwatch.Db

open RustStd

namespace Tables

/-- The address a device's row holds. -/
def ipOf (t : Tables) (mac : Str) : Option Str := (t.devices.get mac).bind DeviceRecord.ip

/-- No address is held by two rows. -/
def OneHolder (t : Tables) : Prop :=
  ∀ ip, (t.devices.rows.filter fun r => r.ip = some ip).length ≤ 1

theorem ipOf_eq_some_iff {t : Tables} {mac ip : Str} :
    t.ipOf mac = some ip ↔ ∃ r ∈ t.devices.rows, r.mac = mac ∧ r.ip = some ip := by
  rw [ipOf, Option.bind_eq_some_iff]
  constructor
  · rintro ⟨r, hr, hip⟩
    obtain ⟨hmem, hmac⟩ := Sql.Table.get_eq_some_iff.mp hr
    exact ⟨r, hmem, hmac, hip⟩
  · rintro ⟨r, hmem, hmac, hip⟩
    exact ⟨r, Sql.Table.get_eq_some_iff.mpr ⟨hmem, hmac⟩, hip⟩

theorem oneHolder_iff {t : Tables} :
    t.OneHolder ↔ ∀ mac mac' ip, t.ipOf mac = some ip → t.ipOf mac' = some ip → mac = mac' := by
  have hfilter : ∀ ip, (t.devices.rows.filter fun r => r.ip = some ip).length ≤ 1 ↔
      ∀ r ∈ t.devices.rows, ∀ r' ∈ t.devices.rows, r.ip = some ip → r'.ip = some ip →
        r.mac = r'.mac := by
    intro ip
    rw [t.devices.length_filter_le_one_iff]
    simp only [decide_eq_true_eq]
  constructor
  · intro h mac mac' ip hmac hmac'
    obtain ⟨r, hr, rfl, hip⟩ := ipOf_eq_some_iff.mp hmac
    obtain ⟨r', hr', rfl, hip'⟩ := ipOf_eq_some_iff.mp hmac'
    exact (hfilter ip).mp (h ip) r hr r' hr' hip hip'
  · intro h ip
    rw [hfilter]
    intro r hr r' hr' hip hip'
    exact h r.mac r'.mac ip (ipOf_eq_some_iff.mpr ⟨r, hr, rfl, hip⟩)
      (ipOf_eq_some_iff.mpr ⟨r', hr', rfl, hip'⟩)

theorem ipOf_releaseIp (ip mac : Str) (t : Tables) (mac' : Str) :
    (t.releaseIp ip mac).ipOf mac' =
      if t.ipOf mac' = some ip ∧ mac' ≠ mac then none else t.ipOf mac' := by
  rw [ipOf, releaseIp, Sql.Table.get_update, ipOf]
  cases hget : t.devices.get mac' with
  | none => simp
  | some r =>
    have hmac : r.mac = mac' := (Sql.Table.get_eq_some_iff.mp hget).2
    simp only [Option.map_some, Option.bind_some, hmac]
    split <;> rfl

theorem ipOf_upsertDevice (d : DeviceOp) (t : Tables) (mac : Str) :
    (t.upsertDevice d).ipOf mac = if mac = d.mac then d.ip.or (t.ipOf mac) else t.ipOf mac := by
  rw [ipOf, upsertDevice, Sql.Table.get_upsert, ipOf]
  by_cases hmac : mac = d.mac
  · subst hmac
    rw [if_pos rfl, if_pos rfl]
    cases t.devices.get d.mac with
    | none => simp
    | some r => rfl
  · rw [if_neg hmac, if_neg hmac]

theorem execute_device (d : DeviceOp) (t : Tables) :
    t.execute (.device d) = (d.ip.elim t fun ip => t.releaseIp ip d.mac).upsertDevice d := by
  cases hip : d.ip <;> simp [execute, WriteOp.statements, hip]

/-- A sighting adds no row but that of its device. -/
theorem mac_of_isSome_get_execute_device {d : DeviceOp} {t : Tables} {mac : Str}
    (h : ((t.execute (.device d)).devices.get mac).isSome = true) :
    mac = d.mac ∨ (t.devices.get mac).isSome = true := by
  by_cases hmac : mac = d.mac
  · exact .inl hmac
  · refine .inr ?_
    rw [execute_device, upsertDevice, Sql.Table.get_upsert, if_neg hmac] at h
    cases hip : d.ip with
    | none => rwa [hip] at h
    | some ip =>
      rwa [hip, Option.elim_some, releaseIp, Sql.Table.get_update, Option.isSome_map] at h

/-- A sighting gives its device the address it carries, takes that address from every other
row and leaves the other addresses alone. -/
theorem ipOf_execute_device (d : DeviceOp) (t : Tables) (mac : Str) :
    (t.execute (.device d)).ipOf mac =
      if mac = d.mac then d.ip.or (t.ipOf mac)
      else if t.ipOf mac = d.ip then none else t.ipOf mac := by
  rw [execute_device, ipOf_upsertDevice]
  cases hip : d.ip with
  | none =>
    by_cases hmac : mac = d.mac
    · simp [hmac]
    · cases hold : t.ipOf mac <;> simp [hmac, hold]
  | some ip =>
    rw [Option.elim_some, ipOf_releaseIp]
    by_cases hmac : mac = d.mac
    · simp [hmac]
    · simp [hmac]

/-- Who holds an address after a sighting: its device, if the sighting carries the address,
and otherwise who held it before, unless the sighting moved it elsewhere. -/
theorem ipOf_execute_device_eq_some_iff {d : DeviceOp} {t : Tables} {mac ip : Str} :
    (t.execute (.device d)).ipOf mac = some ip ↔
      if d.ip = some ip then mac = d.mac
      else t.ipOf mac = some ip ∧ (mac = d.mac → d.ip = none) := by
  rw [ipOf_execute_device]
  by_cases hmac : mac = d.mac
  · cases hip : d.ip with
    | none => simp [hmac]
    | some x => simp [hmac]
  · by_cases hd : d.ip = some ip
    · simp only [hmac, hd, if_true, if_false, iff_false]
      intro hcon
      split at hcon
      · cases hcon
      · next hne => exact hne hcon
    · simp only [hmac, hd, if_false, false_implies, and_true]
      split
      · next hold => simp [hold, hd]
      · rfl

theorem devices_execute_of_ne_device {op : WriteOp} (h : ∀ d, op ≠ .device d) (t : Tables) :
    (t.execute op).devices = t.devices := by
  cases op with
  | device d => exact absurd rfl (h d)
  | query e => rfl
  | iface s => rfl
  | latency ts target ms => rfl
  | alert ts kind severity subject detail notified => rfl

/-- What becomes of the devices depends on nothing else in the database. -/
theorem devices_execute_congr {t t' : Tables} (h : t.devices = t'.devices) (op : WriteOp) :
    (t.execute op).devices = (t'.execute op).devices := by
  cases op with
  | device d =>
    rw [execute_device, execute_device]
    cases d.ip with
    | none =>
      simp only [Option.elim_none, upsertDevice]
      rw [h]
    | some ip =>
      simp only [Option.elim_some, upsertDevice, releaseIp]
      rw [h]
  | query e => exact h
  | iface sample => exact h
  | latency ts target ms => exact h
  | alert ts kind severity subject detail notified => exact h

theorem devices_executeAll_congr {t t' : Tables} (h : t.devices = t'.devices)
    (ops : List WriteOp) : (t.executeAll ops).devices = (t'.executeAll ops).devices := by
  induction ops generalizing t t' with
  | nil => exact h
  | cons op ops ih => exact ih (devices_execute_congr h op)

theorem oneHolder_of_devices_eq {t t' : Tables} (h : t'.devices = t.devices)
    (ht : t.OneHolder) : t'.OneHolder := by
  intro ip
  rw [h]
  exact ht ip

/-- One op, with all its statements, keeps every address with one holder. -/
theorem oneHolder_execute (op : WriteOp) {t : Tables} (h : t.OneHolder) :
    (t.execute op).OneHolder := by
  by_cases hop : ∃ d, op = .device d
  · obtain ⟨d, rfl⟩ := hop
    rw [oneHolder_iff] at h ⊢
    intro mac mac' ip hmac hmac'
    rw [ipOf_execute_device_eq_some_iff] at hmac hmac'
    by_cases hip : d.ip = some ip
    · rw [if_pos hip] at hmac hmac'
      exact hmac.trans hmac'.symm
    · rw [if_neg hip] at hmac hmac'
      exact h mac mac' ip hmac.1 hmac'.1
  · exact oneHolder_of_devices_eq
      (devices_execute_of_ne_device (fun d hd => hop ⟨d, hd⟩) t) h

theorem oneHolder_executeAll (ops : List WriteOp) {t : Tables} (h : t.OneHolder) :
    (t.executeAll ops).OneHolder := by
  induction ops generalizing t with
  | nil => exact h
  | cons op ops ih => exact ih (oneHolder_execute op h)

end Tables

/-- What the writer thread does to the tables. -/
inductive WriterStep
  | flush (fails : ℕ → Bool) (ops : List WriteOp)
  | prune (now : ℤ) (retentionDays done : ℕ)

def WriterStep.apply : WriterStep → Tables → Tables
  | flush fails ops, t => (Db.flush fails t ops).2
  | prune now retentionDays done, t => Db.prune now retentionDays done t

theorem oneHolder_step (step : WriterStep) {t : Tables} (h : t.OneHolder) :
    (step.apply t).OneHolder := by
  cases step with
  | prune now retentionDays done =>
    exact Tables.oneHolder_of_devices_eq (devices_prune now retentionDays done t) h
  | flush fails ops =>
    rw [WriterStep.apply]
    obtain hflush | hflush := flush_cases fails t ops
    · rw [hflush]
      exact h
    · rw [hflush]
      exact Tables.oneHolder_executeAll ops h

theorem oneHolder_fresh : Tables.fresh.OneHolder := fun _ => Nat.zero_le _

/-- After any batches, failing or not, at most one row holds an address. -/
theorem oneHolder_run (steps : List WriterStep) :
    (Interleaving.run WriterStep.apply steps .fresh).OneHolder :=
  Interleaving.run_invariant (fun step _ => oneHolder_step step) steps oneHolder_fresh

end Netwatch.Db
