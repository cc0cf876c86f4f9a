import Netwatch.Db.DevicesTable
import Netwatch.Devices.Addresses

/-!
# Who holds an address

The registry and the `devices` table together. The registry maps an address to the MAC last
seen with it but leaves the address with its previous holders; the table takes it away from
them, at the next row that carries it.

## Main definitions

- `Site` — a registry, the table its rows are written to, and who was last seen where
- `Site.OwnersFollow` — a row holds an address only if its device was last seen there
- `Site.Sound` — the calls that keep it so

## Main results

- `Site.consistent_step` — the invariant of registry and table
- `Site.ownersFollow_iff` — ownership follows the network exactly in sound runs
-/

namespace Netwatch.Devices

open RustStd Interleaving

/-- The rows of the table were written by registries. -/
structure Registered (t : Db.Tables) : Prop where
  canonical : ∀ m, (t.devices.get m).isSome = true → Oui.normalize m = some m
  text : ∀ m ip, t.ipOf m = some ip → ∃ x : Ipv4Addr, ip = x.toText
  oneHolder : t.OneHolder

structure Site where
  inner : Inner
  tables : Db.Tables
  /-- The MAC last observed with an address since startup. -/
  observed : Ipv4Addr → Option Str

inductive Event
  | restart (now : ℕ)
  | call (c : Call) (now : ℕ) (ts : ℤ)

/-- What a call persists is written before the next call. -/
def applied (write : Option Device) (ts : ℤ) (t : Db.Tables) : Db.Tables :=
  match write with
  | some d => (Db.flush (fun _ => false) t [.device (persist d ts)]).2
  | none => t

def noted (sighted : Option (Ipv4Addr × Str)) (observed : Ipv4Addr → Option Str) :
    Ipv4Addr → Option Str :=
  match sighted with
  | some (ip, m) => fun x => if x = ip then some m else observed x
  | none => observed

namespace Site

/-- `main` hydrates a new registry from the database. -/
def boot (store : DeviceStore) (t : Db.Tables) (now : ℕ) : Site :=
  ⟨(store.hydrate (Db.knownDevices t) now .empty).2, t, fun _ => none⟩

def step (store : DeviceStore) (e : Event) (st : Site) : Site :=
  match e with
  | .restart now => boot store st.tables now
  | .call c now ts =>
    let (inner, outcome) := c.exec store now st.inner
    ⟨inner, applied outcome.write ts st.tables, noted c.sighted st.observed⟩

def OwnersFollow (st : Site) : Prop :=
  ∀ x m, st.observed x = some m → ∀ m', st.tables.ipOf m' = some x.toText → m' = m

/-- A sighting that is not worth a row comes while no other row holds the address. Any other
call is worth a row only if the reverse index leads from the address of its device back to
the device. -/
structure SoundCall (store : DeviceStore) (c : Call) (now : ℕ) (st : Site) : Prop where
  sighting : ∀ ip m, c.sighted = some (ip, m) → c.due store now st.inner = none →
    ∀ m', st.tables.ipOf m' = some ip.toText → m' = m
  other : c.sighted = none → ∀ e, c.due store now st.inner = some e →
    ∀ x, e.ip = some x → st.inner.ipToMac.lookup x = some e.mac

def Sound (store : DeviceStore) (e : Event) (st : Site) : Prop :=
  match e with
  | .restart _ => True
  | .call c now _ => SoundCall store c now st

end Site

/-! ### The table -/

theorem applied_some (d : Device) (ts : ℤ) (t : Db.Tables) :
    applied (some d) ts t = t.execute (.device (persist d ts)) := by
  obtain hflush | hflush := Db.flush_cases (fun _ => false) t [.device (persist d ts)]
  · have hdone := (Db.flush_fst_iff (t := t)).mpr
      (fun _ _ => rfl : Db.Undisturbed (fun _ => false) [.device (persist d ts)])
    rw [hflush] at hdone
    cases hdone
  · rw [applied, hflush]
    rfl

/-- Who holds an address after the row of `d`. -/
theorem holds_applied {d : Device} {ts : ℤ} {t : Db.Tables} {m : Str} {x : Ipv4Addr} :
    (applied (some d) ts t).ipOf m = some x.toText ↔
      if d.ip = some x then m = d.mac
      else t.ipOf m = some x.toText ∧ (m = d.mac → d.ip = none) := by
  have htext : (persist d ts).ip = some x.toText ↔ d.ip = some x := by
    rw [persist, Option.map_eq_some_iff]
    constructor
    · rintro ⟨y, hy, heq⟩
      rw [hy, Ipv4Addr.toText_inj heq]
    · exact fun h => ⟨x, h, rfl⟩
  have hnone : (persist d ts).ip = none ↔ d.ip = none := Option.map_eq_none_iff
  rw [applied_some, Db.Tables.ipOf_execute_device_eq_some_iff]
  simp only [htext, hnone]
  rfl

theorem registered_fresh : Registered .fresh where
  canonical m h := by cases h
  text m ip h := by cases h
  oneHolder := Db.oneHolder_fresh

/-- A row with a canonical key keeps the table as registries write it. -/
theorem registered_applied {t : Db.Tables} (h : Registered t) {write : Option Device}
    (hwrite : ∀ d, write = some d → Oui.normalize d.mac = some d.mac) (ts : ℤ) :
    Registered (applied write ts t) := by
  cases write with
  | none => exact h
  | some d =>
    rw [applied_some]
    refine ⟨?_, ?_, ?_⟩
    · intro m hm
      obtain rfl | hold := Db.Tables.mac_of_isSome_get_execute_device hm
      · exact hwrite d rfl
      · exact h.canonical m hold
    · intro m ip hip
      rw [Db.Tables.ipOf_execute_device_eq_some_iff] at hip
      split at hip
      · next hd =>
        obtain ⟨x, -, hx⟩ := Option.map_eq_some_iff.mp hd
        exact ⟨x, hx.symm⟩
      · exact h.text m ip hip.1
    · exact Db.Tables.oneHolder_execute _ h.oneHolder

/-- The rows a registry is hydrated from. -/
theorem mem_knownDevices {t : Db.Tables} (h : Registered t) {row : Db.KnownDevice}
    (hrow : row ∈ Db.knownDevices t) :
    Oui.normalize row.mac = some row.mac ∧
      ∀ x, hydratedIp row = some x → t.ipOf row.mac = some x.toText := by
  obtain ⟨r, hr, rfl⟩ := List.mem_map.mp hrow
  have hget : t.devices.get r.mac = some r := Sql.Table.mem_iff_get.mp hr
  refine ⟨h.canonical r.mac (by rw [hget]; rfl), fun x hx => ?_⟩
  obtain ⟨ip, hip, hparse⟩ := Option.bind_eq_some_iff.mp hx
  have hold : t.ipOf r.mac = some ip := by
    rw [Db.Tables.ipOf, hget]
    exact hip
  obtain ⟨y, rfl⟩ := h.text r.mac ip hold
  rw [Ipv4Addr.parseIpv4_toText] at hparse
  cases hparse
  exact hold

theorem exists_mem_knownDevices {t : Db.Tables} {m : Str} {x : Ipv4Addr}
    (h : t.ipOf m = some x.toText) :
    ∃ row ∈ Db.knownDevices t, row.mac = m ∧ hydratedIp row = some x := by
  obtain ⟨r, hr, hmac, hip⟩ := Db.Tables.ipOf_eq_some_iff.mp h
  refine ⟨_, List.mem_map_of_mem hr, hmac, ?_⟩
  rw [hydratedIp, hip]
  exact Ipv4Addr.parseIpv4_toText x

/-! ### Registry and table -/

namespace Site

/-- The reverse index agrees with the table and with what was observed. A device has an
address that leads elsewhere only if that was observed. -/
structure Consistent (st : Site) : Prop where
  keyed : Keyed st.inner
  registered : Registered st.tables
  owned : ∀ m x, st.tables.ipOf m = some x.toText → st.inner.ipToMac.lookup x = some m
  recent : ∀ x m, st.observed x = some m → st.inner.ipToMac.lookup x = some m
  placed : ∀ m d x, st.inner.byMac.lookup m = some d → d.ip = some x →
    st.inner.ipToMac.lookup x = some m ∨ (st.observed x).isSome = true

theorem ownersFollow_of_consistent {st : Site} (h : Consistent st) : OwnersFollow st := by
  intro x m hm m' hm'
  exact Option.some.inj ((h.owned m' x hm').symm.trans (h.recent x m hm))

theorem consistent_boot (store : DeviceStore) {t : Db.Tables} (h : Registered t) (now : ℕ) :
    Consistent (boot store t now) := by
  have haddr := addressed_hydrate store now fun row hrow => (mem_knownDevices h hrow).1
  have howned : ∀ m x, t.ipOf m = some x.toText →
      (boot store t now).inner.ipToMac.lookup x = some m := by
    intro m x hm
    obtain ⟨row, hrow, -, hip⟩ := exists_mem_knownDevices hm
    obtain ⟨m', hm'⟩ := haddr.covers row hrow x hip
    obtain ⟨row', hrow', rfl, hip'⟩ := haddr.ipToMac x m' hm'
    have hheld := (mem_knownDevices h hrow').2 x hip'
    rw [Db.Tables.oneHolder_iff.mp h.oneHolder m row'.mac x.toText hm hheld]
    exact hm'
  refine ⟨⟨?_, ?_⟩, h, howned, ?_, ?_⟩
  · intro m d hd
    obtain ⟨hmac, row, hrow, rfl, -⟩ := haddr.byMac m d hd
    exact ⟨hmac, (mem_knownDevices h hrow).1⟩
  · intro x m hx
    obtain ⟨row, hrow, rfl, -⟩ := haddr.ipToMac x m hx
    exact (mem_knownDevices h hrow).1
  · intro x m hobserved
    cases hobserved
  · intro m d x hd hx
    obtain ⟨-, row, hrow, rfl, hip⟩ := haddr.byMac m d hd
    exact .inl (howned row.mac x ((mem_knownDevices h hrow).2 x (hip.symm.trans hx)))

theorem noted_some (ip : Ipv4Addr) (m : Str) (observed : Ipv4Addr → Option Str)
    (x : Ipv4Addr) : noted (some (ip, m)) observed x = if x = ip then some m else observed x := rfl

/-- The row that a call writes is the one that is due. -/
theorem exists_due_of_write {store : DeviceStore} {c : Call} {now : ℕ} {s : Inner} {w : Device}
    (hw : (c.exec store now s).2.write = some w) :
    ∃ e, c.due store now s = some e ∧ e.mac = w.mac ∧ e.ip = w.ip := by
  have hcontent := write_exec store c now s
  rw [hw, Option.map_some] at hcontent
  obtain ⟨e, he, heq⟩ := Option.map_eq_some_iff.mp hcontent.symm
  obtain ⟨hmac, hfields⟩ := Prod.mk.inj heq
  exact ⟨e, he, hmac, congrArg Fields.ip hfields⟩

theorem exists_write_of_due {store : DeviceStore} {c : Call} {now : ℕ} {s : Inner} {e : Device}
    (he : c.due store now s = some e) :
    ∃ w, (c.exec store now s).2.write = some w ∧ e.mac = w.mac ∧ e.ip = w.ip := by
  have hcontent := write_exec store c now s
  rw [he, Option.map_some] at hcontent
  obtain ⟨w, hw, heq⟩ := Option.map_eq_some_iff.mp hcontent
  obtain ⟨hmac, hfields⟩ := Prod.mk.inj heq
  exact ⟨w, hw, hmac.symm, congrArg Fields.ip hfields.symm⟩

theorem write_eq_none_iff {store : DeviceStore} {c : Call} {now : ℕ} {s : Inner} :
    (c.exec store now s).2.write = none ↔ c.due store now s = none := by
  rw [← Option.map_eq_none_iff (f := Device.content), write_exec, Option.map_eq_none_iff]

section Steps

variable {store : DeviceStore} {c : Call} {st : Site} {now : ℕ}

theorem owned_sighted (h : Consistent st) {ip : Ipv4Addr} {m : Str}
    (hc : c.sighted = some (ip, m)) (hsound : SoundCall store c now st) {ts : ℤ} {m' : Str}
    {x : Ipv4Addr}
    (hheld : (applied (c.exec store now st.inner).2.write ts st.tables).ipOf m' = some x.toText) :
    (c.exec store now st.inner).1.ipToMac.lookup x = some m' := by
  rw [lookup_of_sighted h.keyed store hc]
  cases hw : (c.exec store now st.inner).2.write with
  | none =>
    -- the table stays as it is while the index moves the address
    rw [hw] at hheld
    by_cases heq : x = ip
    · subst heq
      rw [if_pos rfl, hsound.sighting x m hc (write_eq_none_iff.mp hw) m' hheld]
    · rw [if_neg heq]
      exact h.owned m' x hheld
  | some w =>
    -- the row takes the address away from everyone else
    obtain ⟨hmac, hip⟩ := (exec_of_sighted h.keyed store hc now).2.2.2 w hw
    rw [hw, holds_applied, hip] at hheld
    by_cases heq : x = ip
    · rw [heq, if_pos rfl] at hheld
      rw [if_pos heq, hheld, hmac]
    · rw [if_neg fun hcon => heq (Option.some.inj hcon).symm] at hheld
      rw [if_neg heq]
      exact h.owned m' x hheld.1

theorem owned_not_sighted (h : Consistent st) (hc : c.sighted = none)
    (hsound : SoundCall store c now st) {ts : ℤ} {m : Str} {x : Ipv4Addr}
    (hheld : (applied (c.exec store now st.inner).2.write ts st.tables).ipOf m = some x.toText) :
    st.inner.ipToMac.lookup x = some m := by
  cases hw : (c.exec store now st.inner).2.write with
  | none =>
    rw [hw] at hheld
    exact h.owned m x hheld
  | some w =>
    obtain ⟨e, he, hmac, hip⟩ := exists_due_of_write hw
    rw [hw, holds_applied] at hheld
    by_cases hx : w.ip = some x
    · rw [if_pos hx] at hheld
      rw [hheld, ← hmac]
      exact hsound.other hc e he x (hip.trans hx)
    · rw [if_neg hx] at hheld
      exact h.owned m x hheld.1

theorem consistent_sighted (h : Consistent st) {ip : Ipv4Addr} {m : Str}
    (hc : c.sighted = some (ip, m)) (ts : ℤ) (hsound : SoundCall store c now st) :
    Consistent (step store (.call c now ts) st) := by
  obtain ⟨-, -, ⟨d, hdevices, -, hip⟩, -⟩ := exec_of_sighted h.keyed store hc now
  have hindex : ∀ x, (step store (.call c now ts) st).inner.ipToMac.lookup x =
      if x = ip then some m else st.inner.ipToMac.lookup x :=
    lookup_of_sighted h.keyed store hc now
  have hobserved : ∀ x, (step store (.call c now ts) st).observed x =
      if x = ip then some m else st.observed x := by
    intro x
    show noted c.sighted st.observed x = _
    rw [hc, noted_some]
  refine ⟨keyed_exec h.keyed store c now, ?_, ?_, ?_, ?_⟩
  · exact registered_applied h.registered (fun w hw => canonical_write h.keyed hw) ts
  · exact fun m' x hheld => owned_sighted h hc hsound hheld
  · intro x m' hx
    rw [hobserved] at hx
    rw [hindex]
    by_cases heq : x = ip
    · rwa [if_pos heq] at hx ⊢
    · rw [if_neg heq] at hx ⊢
      exact h.recent x m' hx
  · intro m' d' x hd' hx
    have hd' : (c.exec store now st.inner).1.byMac.lookup m' = some d' := hd'
    rw [hobserved, hindex]
    by_cases heq : x = ip
    · -- previous holders keep the address, but it has been observed
      refine .inr ?_
      rw [if_pos heq]
      rfl
    -- whoever has an address other than the one sighted is not `m`, which moved to it
    · have hne : m' ≠ m := by
        rintro rfl
        rw [hdevices, AList.lookup_insert] at hd'
        cases hd'
        exact heq (Option.some.inj (hx.symm.trans hip))
      rw [hdevices, AList.lookup_insert_ne hne] at hd'
      rw [if_neg heq, if_neg heq]
      exact h.placed m' d' x hd' hx

theorem consistent_not_sighted (h : Consistent st) (hc : c.sighted = none) (ts : ℤ)
    (hsound : SoundCall store c now st) : Consistent (step store (.call c now ts) st) := by
  obtain ⟨hindex, hdevices⟩ := exec_of_not_sighted h.keyed store hc now
  have hobserved : (step store (.call c now ts) st).observed = st.observed := by
    show noted c.sighted st.observed = st.observed
    rw [hc]
    rfl
  have hleads : (step store (.call c now ts) st).inner.ipToMac = st.inner.ipToMac := hindex
  refine ⟨keyed_exec h.keyed store c now, ?_, ?_, ?_, ?_⟩
  · exact registered_applied h.registered (fun w hw => canonical_write h.keyed hw) ts
  · rw [hleads]
    exact fun m x hheld => owned_not_sighted h hc hsound hheld
  · rw [hobserved, hleads]
    exact h.recent
  · intro m' d' x hd' hx
    have hd' : (c.exec store now st.inner).1.byMac.lookup m' = some d' := hd'
    rw [hobserved, hleads]
    obtain ⟨hsame, -⟩ | ⟨m, d, hinsert, -, -, hip, -⟩ := hdevices
    · rw [hsame] at hd'
      exact h.placed m' d' x hd' hx
    · rw [hinsert] at hd'
      obtain ⟨rfl, rfl⟩ | ⟨-, hd'⟩ := HashMap.of_lookup_insert hd'
      · obtain ⟨old, hold, holdIp⟩ | hback := hip x hx
        · exact h.placed m' old x hold holdIp
        · exact .inl hback
      · exact h.placed m' d' x hd' hx

end Steps

theorem consistent_step {store : DeviceStore} (e : Event) (st : Site) (hsound : Sound store e st)
    (h : Consistent st) : Consistent (step store e st) := by
  cases e with
  | restart now => exact consistent_boot store h.registered now
  | call c now ts =>
    cases hc : c.sighted with
    | none => exact consistent_not_sighted h hc ts hsound
    | some sighted => exact consistent_sighted h hc ts hsound

/-- A call after which ownership follows the network is sound. -/
theorem sound_of_ownersFollow {store : DeviceStore} (e : Event) (st : Site) (h : Consistent st)
    (hafter : OwnersFollow (step store e st)) : Sound store e st := by
  cases e with
  | restart now => trivial
  | call c now ts =>
    have hafter : ∀ x m, noted c.sighted st.observed x = some m →
        ∀ m', (applied (c.exec store now st.inner).2.write ts st.tables).ipOf m' =
          some x.toText → m' = m := hafter
    refine ⟨?_, ?_⟩
    · intro ip m hc hdue m' hheld
      refine hafter ip m ?_ m' ?_
      · rw [hc, noted_some, if_pos rfl]
      · rw [write_eq_none_iff.mpr hdue]
        exact hheld
    · intro hc e he x hx
      obtain ⟨w, hw, hmac, hip⟩ := exists_write_of_due he
      rw [hc, hw] at hafter
      rw [hmac]
      have hwx : w.ip = some x := hip.symm.trans hx
      cases hobserved : st.observed x with
      | some m =>
        -- the row takes the address, so its device is the one observed there
        have hheld : (applied (some w) ts st.tables).ipOf w.mac = some x.toText := by
          rw [holds_applied, if_pos hwx]
        rw [hafter x m hobserved w.mac hheld]
        exact h.recent x m hobserved
      | none =>
        -- the device had the address from the database
        obtain ⟨-, hdevices⟩ := exec_of_not_sighted h.keyed store hc now
        obtain ⟨-, hnone⟩ | ⟨m, d, -, -, -, hold, hwrite⟩ := hdevices
        · rw [hnone] at hw
          cases hw
        · obtain ⟨hwmac, hwip⟩ := hwrite w hw
          rw [hwmac]
          obtain ⟨old, holds, holdIp⟩ | hback := hold x (hwip.symm.trans hwx)
          · obtain hback | hseen := h.placed m old x holds holdIp
            · exact hback
            · rw [hobserved] at hseen
              cases hseen
          · exact hback

/-- Ownership follows the network after every call of a run exactly if every call is sound. -/
theorem ownersFollow_iff (store : DeviceStore) {t : Db.Tables} (ht : Registered t) (now : ℕ)
    (events : List Event) :
    (∀ n, OwnersFollow (run (step store) (events.take n) (boot store t now))) ↔
      Along (step store) (Sound store) events (boot store t now) :=
  (along_iff_forall_take (fun _ => ownersFollow_of_consistent) consistent_step
    sound_of_ownersFollow (consistent_boot store ht now)).symm

/-! ### Two devices at one address -/

def tabletMac : Str := "9c:5c:8e:44:55:66".toList

def sharedIp : Ipv4Addr := Ipv4Addr.ofOctets 192 168 1 9

/-- The tablet takes over the address of the kitchen device. -/
def takeover : List Event :=
  [.call (.observe sharedIp kitchenMac) 0 0, .call (.observe sharedIp tabletMac) 0 0]

theorem ownersFollow_iff_example :
    OwnersFollow (run (step plainStore) takeover (boot plainStore .fresh 0)) := by
  refine (ownersFollow_iff plainStore registered_fresh 0 takeover).mpr
    ⟨⟨?_, ?_⟩, ⟨?_, ?_⟩, trivial⟩ 2
  · intro ip m _ hdue
    exact absurd hdue (by decide)
  · intro hc
    exact absurd hc (by decide)
  · intro ip m _ hdue
    exact absurd hdue (by decide)
  · intro hc
    exact absurd hc (by decide)

/-- The kitchen device renews its name and takes the address back from the tablet. -/
theorem not_ownersFollow :
    ¬ ∀ n, OwnersFollow (run (step plainStore)
      ((takeover ++ [Event.call (.observeNamed kitchenMac "kitchen-pi".toList) 1 1]).take n)
      (boot plainStore .fresh 0)) := by
  intro h
  have hheld : kitchenMac = tabletMac := h 3 sharedIp tabletMac (by decide) kitchenMac (by decide)
  exact absurd hheld (by decide)

end Site

end Netwatch.Devices
