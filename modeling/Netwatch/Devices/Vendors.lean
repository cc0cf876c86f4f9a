import Netwatch.Devices.Restart
import Netwatch.Oui.Vendors

/-!
# The vendor of a device

A device that has no vendor yet is looked up whenever it is reported; one that has a vendor
keeps it, also where the program is started again with another `oui.csv`.

## Main definitions

- `Life` — one run of the program, from the table that the one before has left
- `Life.finds` — the vendor that a run of the program finds for a MAC

## Main results

- `knownVendor_exec` — a call looks up at most the device that it reports
- `vendor_settled` — the first vendor that is found for a MAC is there for good
-/

namespace Netwatch.Devices

open RustStd Interleaving

variable {ι : Type}

/-- The file and the compiled names, and nothing of them for a randomised MAC. -/
def vendorOf (csv : Option Str) (m : Str) : Option Str :=
  if Oui.isRandomized m then some "(randomized MAC)".toList
  else (OuiDb.rows csv).lookup ((Oui.key m).take 6)

/-- One run of the program. -/
structure Life (ι : Type) where
  /-- The text of `discovery.oui_file`. -/
  csv : Option Str
  /-- The devices in the database can be read at its start. -/
  readable : Bool
  bootedAt : ℕ
  moves : List (Move ι)

/-- The device that a call reports. -/
def Move.reports : Move ι → Option Str
  | .call c _ _ => c.reports
  | _ => none

namespace Life

/-- What `main` builds the registry from. -/
def store (fingerprint : Fields → UInt64) (life : Life ι) : DeviceStore :=
  ⟨OuiDb.available life.csv, fingerprint⟩

def live (fingerprint : Fields → UInt64) (life : Life ι) (t : Db.Tables) : Process ι :=
  run (Process.step (life.store fingerprint)) life.moves
    (Process.boot (life.store fingerprint) life.readable t life.bootedAt)

/-- The tables for the next run. -/
def leaves (fingerprint : Fields → UInt64) (life : Life ι) (t : Db.Tables) : Db.Tables :=
  (life.live fingerprint t).pipeline.tables

/-- This run has read what was written before, no row of a device is lost during it or on its way
when it ends, and no hash hides a change. -/
structure Saved (fingerprint : Fields → UInt64) (life : Life ι) (t : Db.Tables) : Prop where
  readable : life.readable = true
  moves : Along (Process.step (life.store fingerprint))
    (fun m p => m.Saves (life.store fingerprint) p ∧ m.Unclashing (life.store fingerprint) p)
    life.moves (Process.boot (life.store fingerprint) true t life.bootedAt)
  settled : (life.live fingerprint t).Settled

/-- The vendor of a MAC, if the run comes across it. -/
def finds (m : Str) (life : Life ι) : Option Str :=
  if ∃ move ∈ life.moves, move.reports = some m then vendorOf life.csv m else none

end Life

def rowVendor (t : Db.Tables) (m : Str) : Option Str :=
  (t.devices.get m).bind Db.DeviceRecord.vendor

def knownVendor (devices : DeviceMap) (m : Str) : Option Str :=
  (fieldsOf devices m).bind Fields.vendor

/-! ### What a call looks up -/

theorem knownVendor_insert (devices : DeviceMap) (m m' : Str) (d : Device) :
    knownVendor (devices.insert m d) m' = if m' = m then d.vendor else knownVendor devices m' := by
  rw [knownVendor, fieldsOf_insert]
  split <;> rfl

theorem vendor_getD (devices : DeviceMap) (m : Str) (ip : Option Ipv4Addr) :
    ((devices.lookup m).getD { mac := m, ip := ip }).vendor = knownVendor devices m := by
  rw [knownVendor, fieldsOf]
  cases devices.lookup m <;> rfl

theorem vendor_slot (fingerprint : Fields → UInt64) (now : ℕ) (d : Device) :
    (d.takeWriteSlot fingerprint now).2.vendor = d.vendor :=
  congrArg Fields.vendor (takeWriteSlot_keeps fingerprint now d).2

/-- The device that is reported is looked up if it has no vendor. -/
theorem knownVendor_lookUp (store : DeviceStore) {devices : DeviceMap} {m' : Str} {d : Device}
    (h : d.vendor = (knownVendor devices m').or (store.vendor m')) (m : Str) :
    knownVendor (devices.insert m' d) m =
      (knownVendor devices m).or (if some m' = some m then store.vendor m else none) := by
  rw [knownVendor_insert]
  by_cases hm : m = m'
  · rw [if_pos hm, if_pos (congrArg some hm.symm), hm, h]
  · rw [if_neg hm, if_neg fun heq => hm (Option.some.inj heq).symm, Option.or_none]

/-- A report that has nothing looked up. -/
theorem knownVendor_keep {devices : DeviceMap} {m' : Str} {d : Device}
    (h : d.vendor = knownVendor devices m') (m : Str) :
    knownVendor (devices.insert m' d) m = knownVendor devices m := by
  rw [knownVendor_insert]
  split
  · next hm => rw [h, hm]
  · rfl

theorem knownVendor_exec (store : DeviceStore) (c : Call) (now : ℕ) (s : Inner) (m : Str) :
    knownVendor (c.exec store now s).1.byMac m =
      (knownVendor s.byMac m).or (if c.reports = some m then store.vendor m else none) := by
  cases c with
  | observe ip mac =>
    rw [Call.exec, DeviceStore.observe, Call.reports]
    cases Oui.normalize mac with
    | none => exact Option.or_none.symm
    | some m' =>
      refine knownVendor_lookUp store ?_ m
      rw [vendor_slot, ← vendor_getD s.byMac m' none]
  | observeNamed mac hostname =>
    rw [Call.exec, DeviceStore.observeNamed, Call.reports]
    cases sanitizeHostname hostname with
    | none =>
      cases Oui.normalize mac <;> exact Option.or_none.symm
    | some name =>
      cases Oui.normalize mac with
      | none => exact Option.or_none.symm
      | some m' =>
        refine knownVendor_lookUp store ?_ m
        rw [vendor_slot, ← vendor_getD s.byMac m' none]
  | observeNameForIp ip hostname =>
    rw [Call.exec, DeviceStore.observeNameForIp]
    refine Eq.trans ?_ Option.or_none.symm
    cases sanitizeHostname hostname with
    | none => rfl
    | some name =>
      cases s.ipToMac.lookup ip with
      | none => rfl
      | some m' =>
        refine knownVendor_keep ?_ m
        rw [vendor_slot, ← vendor_getD s.byMac m' (some ip)]
  | touchIp ip =>
    refine Eq.trans ?_ Option.or_none.symm
    rw [Call.exec]
    obtain hidle | ⟨v4, m', d, -, hd, hbeat⟩ := touchIp_idle_or_beat ip now s
    · rw [hidle]
    · rw [hbeat]
      refine knownVendor_keep ?_ m
      rw [knownVendor, fieldsOf, hd]
      rfl

/-! ### One run of the program -/

theorem normalize_of_reports {c : Call} {m : Str} (h : c.reports = some m) :
    Oui.normalize m = some m := by
  cases c with
  | observe ip mac => exact Oui.normalize_idem h
  | observeNamed mac hostname =>
    rw [Call.reports] at h
    split at h
    · exact Oui.normalize_idem h
    · cases h
  | observeNameForIp ip hostname => cases h
  | touchIp ip => cases h

namespace Life

variable (fingerprint : Fields → UInt64) (life : Life ι)

theorem vendor_store {m : Str} (h : Oui.normalize m = some m) :
    (life.store fingerprint).vendor m = vendorOf life.csv m := by
  have hlen : ¬ (Oui.key m).length < 6 := by
    rw [Oui.normalize] at h
    split at h
    · cases h
    · next htwelve =>
      rw [Oui.key, List.length_map]
      omega
  rw [DeviceStore.vendor, store, OuiDb.lookup_available, if_neg hlen]
  rfl

theorem knownVendor_run (moves : List (Move ι)) (p : Process ι) (m : Str) :
    knownVendor (run (Process.step (life.store fingerprint)) moves p).inner.byMac m =
      (knownVendor p.inner.byMac m).or
        (if ∃ move ∈ moves, move.reports = some m then vendorOf life.csv m else none) := by
  induction moves generalizing p with
  | nil => simp
  | cons move moves ih =>
    have hstep : knownVendor (p.step (life.store fingerprint) move).inner.byMac m =
        (knownVendor p.inner.byMac m).or
          (if move.reports = some m then vendorOf life.csv m else none) := by
      cases move with
      | call c now ts =>
        refine (knownVendor_exec _ c now p.inner m).trans ?_
        rw [Move.reports]
        by_cases hm : c.reports = some m
        · rw [if_pos hm, if_pos hm, vendor_store fingerprint life (normalize_of_reports hm)]
        · rw [if_neg hm, if_neg hm]
      | other producer op => exact Option.or_none.symm
      | thread a => exact Option.or_none.symm
    rw [run_cons, ih, hstep, Option.or_assoc]
    congr 1
    have hcons := List.exists_mem_cons_iff (fun move => move.reports = some m) move moves
    by_cases hrest : ∃ move ∈ moves, move.reports = some m
    · rw [if_pos hrest, if_pos (hcons.mpr (.inr hrest))]
      split
      · exact Option.or_self
      · exact Option.none_or
    · rw [if_neg hrest, Option.or_none]
      exact if_congr (hcons.trans (or_iff_left hrest)).symm rfl rfl

theorem knownVendor_live {t : Db.Tables} (ht : Registered t) (hreadable : life.readable = true)
    (m : Str) :
    knownVendor (life.live fingerprint t).inner.byMac m =
      (rowVendor t m).or (life.finds m) := by
  have hmatches : (Process.boot (life.store fingerprint) true t life.bootedAt : Process ι).Matches
      (Site.boot (life.store fingerprint) t life.bootedAt) := Process.matches_boot _ rfl _
  have hboot : knownVendor
      (Process.boot (life.store fingerprint) true t life.bootedAt : Process ι).inner.byMac m =
        rowVendor t m := by
    rw [← hmatches.inner, knownVendor, Site.fieldsOf_boot _ ht, rowVendor]
    cases t.devices.get m <;> rfl
  rw [live, hreadable, knownVendor_run, hboot, finds]

/-- The rows that a run leaves have the vendors that the registry had at the end. -/
theorem rowVendor_leaves {t : Db.Tables} (ht : Registered t) (hsaved : life.Saved fingerprint t)
    (m : Str) : Registered (life.leaves fingerprint t) ∧
      rowVendor (life.leaves fingerprint t) m = (rowVendor t m).or (life.finds m) := by
  have hkept := hsaved.moves.invariant (fun _ _ => kept_step)
    (kept_boot (life.store fingerprint) ht life.bootedAt)
  rw [← hsaved.readable] at hkept
  obtain ⟨st, hmatches, hrecorded, hmirrored⟩ := hkept
  have hinner : st.inner = (life.live fingerprint t).inner := hmatches.inner
  have hdevices : (life.leaves fingerprint t).devices = st.tables.devices :=
    (hmatches.devices_of_settled hsaved.settled).symm
  refine ⟨hrecorded.registered.of_devices_eq hdevices, ?_⟩
  rw [← knownVendor_live fingerprint life ht hsaved.readable m, knownVendor, rowVendor, hdevices,
    ← hinner]
  cases hf : fieldsOf st.inner.byMac m with
  | none =>
    have hrow : ¬ (st.tables.devices.get m).isSome = true := by
      intro hrow
      obtain ⟨f, hf'⟩ := mem_iff_fieldsOf.mp ((hrecorded.known m).mpr hrow)
      cases hf.symm.trans hf'
    rw [Option.not_isSome_iff_eq_none.mp hrow]
    rfl
  | some f =>
    obtain ⟨r, hr, hdescribes⟩ := hmirrored m f hf
    rw [hr]
    exact hdescribes.vendor

end Life

/-! ### Over many runs -/

theorem rowVendor_run (fingerprint : Fields → UInt64) {lives : List (Life ι)} {t : Db.Tables}
    (ht : Registered t)
    (hsaved : Along (Life.leaves fingerprint) (Life.Saved fingerprint) lives t) (m : Str) :
    Registered (run (Life.leaves fingerprint) lives t) ∧
      rowVendor (run (Life.leaves fingerprint) lives t) m =
        (rowVendor t m).or (lives.findSome? (Life.finds m)) := by
  induction lives generalizing t with
  | nil => exact ⟨ht, Option.or_none.symm⟩
  | cons life lives ih =>
    obtain ⟨hnext, hvendor⟩ := life.rowVendor_leaves fingerprint ht hsaved.1 m
    obtain ⟨hlast, hrest⟩ := ih hnext hsaved.2
    refine ⟨hlast, hrest.trans ?_⟩
    rw [hvendor, Option.or_assoc, List.findSome?_cons]
    cases life.finds m <;> rfl

/-- The vendor of a device is the one its row had at first, and if it had none the first one that
was found for it, whatever was in the files of later runs. -/
theorem vendor_settled (fingerprint : Fields → UInt64) {t : Db.Tables} (ht : Registered t)
    {lives : List (Life ι)}
    (hsaved : Along (Life.leaves fingerprint) (Life.Saved fingerprint) lives t)
    {life : Life ι} (hreadable : life.readable = true) (m : Str) :
    knownVendor (life.live fingerprint (run (Life.leaves fingerprint) lives t)).inner.byMac m =
      (rowVendor t m).or ((lives ++ [life]).findSome? (Life.finds m)) := by
  obtain ⟨hregistered, hrow⟩ := rowVendor_run fingerprint ht hsaved m
  rw [life.knownVendor_live fingerprint hregistered hreadable, hrow, Option.or_assoc,
    List.findSome?_append, List.findSome?_singleton]

/-- The printer is seen once in every run, and its row is written. -/
def printerLife (csv : String) : Life Unit where
  csv := some csv.toList
  readable := true
  bootedAt := 0
  moves := [.call (.observe Site.sharedIp "00:aa:11:00:00:01".toList) 0 0,
    .thread ⟨.receive, trivial⟩, .thread ⟨.deadline, trivial⟩,
    .thread ⟨.flush fun _ => false, trivial⟩]

/-- The file of the second run has another name for the printer. -/
theorem vendor_settled_renamed :
    knownVendor ((printerLife "\nM,00AA11,New").live plainStore.fingerprint
        (run (Life.leaves plainStore.fingerprint) [printerLife "\nM,00AA11,Old"]
          .fresh)).inner.byMac "00:aa:11:00:00:01".toList =
      (rowVendor .fresh "00:aa:11:00:00:01".toList).or
        ([printerLife "\nM,00AA11,Old", printerLife "\nM,00AA11,New"].findSome?
          (Life.finds "00:aa:11:00:00:01".toList)) := by
  have hfirst : (printerLife "\nM,00AA11,Old").Saved plainStore.fingerprint .fresh := by
    refine ⟨rfl, ⟨⟨fun _ => by decide, ?_⟩, ⟨rfl, trivial⟩, ⟨rfl, trivial⟩, ⟨rfl, trivial⟩,
      trivial⟩, rfl⟩
    intro m f f' hf
    cases hf
  have hall : Along (Life.leaves plainStore.fingerprint) (Life.Saved plainStore.fingerprint)
      [printerLife "\nM,00AA11,Old"] .fresh := ⟨hfirst, trivial⟩
  exact vendor_settled plainStore.fingerprint registered_fresh hall rfl _

end Netwatch.Devices
