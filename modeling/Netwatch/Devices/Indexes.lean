import Netwatch.Devices.Addresses
import Netwatch.Devices.Reports
import Netwatch.Lookup.Inverse

/-!
# The two indexes of the registry

The registry finds a device by its MAC and a MAC by an address. Sightings write both maps and
never take an entry out of the reverse index, so the two agree only as long as devices and
addresses stay together.

## Main definitions

- `IndexesAgree` — an address leads to the device that has it, and only to that
- `Consistent` — with what follows for `touch_ip` and `observe_name_for_ip`
- `Call.Settles` — a sighting that moves neither a device nor an address
- `RowsSettled` — hydration forgets no address of a row

## Main results

- `agree_exec_iff` — one call
- `agree_hydrate_iff` — hydration
- `consistent_run_iff` — the indexes agree after every call exactly in settled runs
-/

namespace Netwatch.Devices

open RustStd Hickory Interleaving

def IndexesAgree (s : Inner) : Prop :=
  ∀ x m, s.ipToMac.lookup x = some m ↔ ∃ d, s.byMac.lookup m = some d ∧ d.ip = some x

/-- The indexes agree, no two devices claim an address, and what is said about an address is
said to the device that has it. -/
structure Consistent (store : DeviceStore) (s : Inner) : Prop where
  agree : IndexesAgree s
  unique : ∀ m m' d d' x, s.byMac.lookup m = some d → s.byMac.lookup m' = some d' →
    d.ip = some x → d'.ip = some x → m = m'
  touch : ∀ x now m, (touchIp (.v4 x) now s).1.byMac.lookup m ≠ s.byMac.lookup m →
    ∃ d, s.byMac.lookup m = some d ∧ d.ip = some x
  name : ∀ x name now m,
    (store.observeNameForIp x name now s).1.byMac.lookup m ≠ s.byMac.lookup m →
    ∃ d, s.byMac.lookup m = some d ∧ d.ip = some x

/-- The address belongs to no other device, and the device to no other address. -/
def Call.Settles (c : Call) (s : Inner) : Prop :=
  ∀ x m, c.sighted = some (x, m) →
    (∀ m', s.ipToMac.lookup x = some m' → m' = m) ∧
    ∀ d x', s.byMac.lookup m = some d → d.ip = some x' → x' = x

def Report.Settles (r : Report) (s : Inner) : Prop :=
  match r with
  | .call c => c.Settles s
  | .learnFromDns _ => True

/-- A row with an address is the last row of its device. -/
def RowsSettled (rows : List Db.KnownDevice) : Prop :=
  rows.Pairwise fun r r' => ∀ m x, Oui.normalize r.mac = some m → hydratedIp r = some x →
    Oui.normalize r'.mac ≠ some m

/-- The address a device has. -/
def Inner.held (s : Inner) (m : Str) : Option Ipv4Addr := (s.byMac.lookup m).bind fun d => d.ip

theorem held_eq_some_iff {s : Inner} {m : Str} {x : Ipv4Addr} :
    s.held m = some x ↔ ∃ d, s.byMac.lookup m = some d ∧ d.ip = some x :=
  Option.bind_eq_some_iff

theorem agree_iff {s : Inner} : IndexesAgree s ↔ Lookup.Inverse s.ipToMac.lookup s.held := by
  simp only [IndexesAgree, Lookup.Inverse, held_eq_some_iff]

theorem IndexesAgree.closed {s : Inner} (h : IndexesAgree s) : Closed s := by
  intro x m hx
  obtain ⟨d, hd, -⟩ := (h x m).mp hx
  exact AList.lookup_isSome.mp (by rw [hd]; rfl)

/-! ### What the calls do to addresses -/

/-- An update of an entry that keeps the address of a known device. -/
theorem held_update {s : Inner} {m : Str} {d : Device} (hip : d.ip = s.held m) (m' : Str) :
    ((s.byMac.insert m d).lookup m').bind (fun d => d.ip) = s.held m' := by
  rw [HashMap.bind_lookup_insert]
  split
  · next hm => rw [hm, hip]
  · rfl

theorem held_exec_of_not_sighted {s : Inner} (hclosed : Closed s) (store : DeviceStore) {c : Call}
    (hc : c.sighted = none) (now : ℕ) (m : Str) :
    (c.exec store now s).1.held m = s.held m := by
  cases c with
  | observe ip mac => rw [exec_observe_of_not_sighted hc]
  | observeNamed mac hostname =>
    rw [Call.exec, DeviceStore.observeNamed]
    split
    · next m' name _ _ =>
      -- a name leaves the address alone
      apply held_update
      rw [(takeWriteSlot_keeps store.fingerprint now _).2, Inner.held]
      cases s.byMac.lookup m' <;> rfl
    · rfl
  | observeNameForIp ip hostname =>
    rw [Call.exec, DeviceStore.observeNameForIp]
    split
    · rfl
    · split
      · next m' hip =>
        obtain ⟨d, hd⟩ := Option.isSome_iff_exists.mp (AList.lookup_isSome.mpr (hclosed ip m' hip))
        apply held_update
        rw [(takeWriteSlot_keeps store.fingerprint now _).2, Inner.held, hd]
        rfl
      · rfl
  | touchIp ip =>
    rw [Call.exec]
    obtain hidle | ⟨-, m', d, -, hd, hbeat⟩ := touchIp_idle_or_beat ip now s
    · rw [hidle]
    · rw [hbeat]
      apply held_update
      rw [Inner.held, hd]
      rfl

theorem ipToMac_exec_of_not_sighted {s : Inner} (store : DeviceStore) {c : Call}
    (hc : c.sighted = none) (now : ℕ) : (c.exec store now s).1.ipToMac = s.ipToMac := by
  cases c with
  | observe ip mac => rw [exec_observe_of_not_sighted hc]
  | observeNamed mac hostname =>
    rw [Call.exec, DeviceStore.observeNamed]
    split <;> rfl
  | observeNameForIp ip hostname =>
    rw [Call.exec, DeviceStore.observeNameForIp]
    split
    · rfl
    · split <;> rfl
  | touchIp ip =>
    rw [Call.exec]
    obtain hidle | ⟨-, m', d, -, -, hbeat⟩ := touchIp_idle_or_beat ip now s
    · rw [hidle]
    · rw [hbeat]

/-- A sighting writes both maps. -/
theorem exec_sighted {s : Inner} (store : DeviceStore) {c : Call} {x : Ipv4Addr} {m : Str}
    (hc : c.sighted = some (x, m)) (now : ℕ) :
    (c.exec store now s).1.ipToMac.lookup = Lookup.update s.ipToMac.lookup x m ∧
      (c.exec store now s).1.held = Lookup.update s.held m x := by
  cases c with
  | observe ip mac =>
    obtain ⟨m₀, hmac, heq⟩ := Option.map_eq_some_iff.mp hc
    obtain ⟨rfl, rfl⟩ := Prod.mk.inj heq
    rw [Call.exec, DeviceStore.observe, hmac]
    constructor
    · funext x'
      exact HashMap.lookup_insert s.ipToMac ip x' m₀
    · funext m'
      refine (HashMap.bind_lookup_insert s.byMac m₀ m' _ _).trans ?_
      rw [(takeWriteSlot_keeps store.fingerprint now _).2]
      rfl
  | observeNamed mac hostname => cases hc
  | observeNameForIp ip hostname => cases hc
  | touchIp ip => cases hc

/-- A call keeps the indexes in agreement exactly if it settles. -/
theorem agree_exec_iff {s : Inner} (h : IndexesAgree s) (store : DeviceStore) (c : Call)
    (now : ℕ) : IndexesAgree (c.exec store now s).1 ↔ c.Settles s := by
  have hold := agree_iff.mp h
  cases hc : c.sighted with
  | none =>
    have hnone : c.Settles s := by
      intro x m hsight
      rw [hc] at hsight
      cases hsight
    refine iff_of_true (agree_iff.mpr fun x m => ?_) hnone
    rw [ipToMac_exec_of_not_sighted store hc, held_exec_of_not_sighted h.closed store hc]
    exact hold x m
  | some sighted =>
    obtain ⟨x, m⟩ := sighted
    obtain ⟨hindex, hheld⟩ := exec_sighted (s := s) store hc now
    rw [agree_iff, hindex, hheld, Lookup.inverse_update_iff hold]
    constructor
    · rintro ⟨hother, hhome⟩ x' m' hsight
      rw [hc] at hsight
      obtain ⟨rfl, rfl⟩ := Prod.mk.inj (Option.some.inj hsight)
      exact ⟨hother, fun d x' hd hx' => hhome x' (held_eq_some_iff.mpr ⟨d, hd, hx'⟩)⟩
    · intro hsettles
      obtain ⟨hother, hhome⟩ := hsettles x m hc
      refine ⟨hother, fun x' hx' => ?_⟩
      obtain ⟨d, hd, hip⟩ := held_eq_some_iff.mp hx'
      exact hhome d x' hd hip

theorem agree_report_iff {st : Session} (h : IndexesAgree st.inner) (codec : Codec)
    (store : DeviceStore) (r : TimedReport) :
    IndexesAgree (st.report codec store r).inner ↔ r.report.Settles st.inner := by
  cases hr : r.report with
  | call c =>
    rw [Session.report_of_call codec store hr]
    exact agree_exec_iff h store c _
  | learnFromDns msg =>
    -- the names of a DNS answer are about addresses, and move none
    refine iff_of_true ?_ trivial
    refine Session.report_invariant (I := fun st => IndexesAgree st.inner) codec store ?_ h
    intro c hc st hst
    obtain ⟨ip, name, heq⟩ := calls_of_learnFromDns codec hr hc
    refine (agree_exec_iff hst store c.call c.now).mpr ?_
    rw [heq]
    intro x m hsight
    cases hsight

theorem lookup_ne_of_insert {devices : HashMap Str Device} {m m' : Str} {d : Device}
    (h : (devices.insert m' d).lookup m ≠ devices.lookup m) : m = m' := by
  by_contra hm
  exact h (AList.lookup_insert_ne hm)

theorem consistent_of_agree {s : Inner} (h : IndexesAgree s) (store : DeviceStore) :
    Consistent store s where
  agree := h
  unique m m' d d' x hd hd' hx hx' := by
    have hm := (h x m).mpr ⟨d, hd, hx⟩
    rw [(h x m').mpr ⟨d', hd', hx'⟩] at hm
    exact (Option.some.inj hm).symm
  touch x now m hne := by
    rw [touchIp] at hne
    split at hne
    · obtain hidle | ⟨m', d, hip, -, -, hbeat⟩ := touchLocked_cases x now s
      · rw [hidle] at hne
        exact absurd rfl hne
      · rw [hbeat] at hne
        rw [lookup_ne_of_insert hne]
        exact (h x m').mp hip
    · exact absurd rfl hne
  name x name now m hne := by
    rw [DeviceStore.observeNameForIp] at hne
    split at hne
    · exact absurd rfl hne
    · split at hne
      · next m' hip =>
        rw [lookup_ne_of_insert hne]
        exact (h x m').mp hip
      · exact absurd rfl hne

/-! ### Hydration -/

/-- A row that is loaded, with its MAC and its address. -/
def Loads (row : Db.KnownDevice) (m : Str) (x : Ipv4Addr) : Prop :=
  Oui.normalize row.mac = some m ∧ hydratedIp row = some x

/-- The reverse index has the address of every row. A device has the address of a row. -/
structure Hydrated (rows : List Db.KnownDevice) (s : Inner) : Prop where
  index : ∀ x m, s.ipToMac.lookup x = some m ↔ ∃ row ∈ rows, Loads row m x
  held : ∀ x m, s.held m = some x → ∃ row ∈ rows, Loads row m x
  settled : (∀ x m, (∃ row ∈ rows, Loads row m x) → s.held m = some x) ↔ RowsSettled rows

theorem rowsSettled_concat {rows : List Db.KnownDevice} {row : Db.KnownDevice} :
    RowsSettled (rows ++ [row]) ↔ RowsSettled rows ∧
      ∀ r ∈ rows, ∀ m x, Loads r m x → Oui.normalize row.mac ≠ some m := by
  rw [RowsSettled, List.pairwise_append]
  simp only [List.pairwise_singleton, true_and, List.mem_singleton, forall_eq, Loads, and_imp]
  rfl

theorem hydrated_skip {rows : List Db.KnownDevice} {s : Inner} (h : Hydrated rows s)
    {row : Db.KnownDevice} (hmac : Oui.normalize row.mac = none) : Hydrated (rows ++ [row]) s := by
  have hsame : ∀ x m, (∃ r ∈ rows ++ [row], Loads r m x) ↔ ∃ r ∈ rows, Loads r m x := by
    intro x m
    simp [List.mem_append, or_and_right, exists_or, Loads, hmac]
  refine ⟨fun x m => ?_, fun x m hx => ?_, ?_⟩
  · rw [hsame, h.index]
  · rw [hsame]
    exact h.held x m hx
  · rw [rowsSettled_concat]
    simp only [hsame, h.settled, hmac]
    simp

theorem hydrated_load {rows : List Db.KnownDevice} {s s' : Inner} (h : Hydrated rows s)
    {row : Db.KnownDevice} {m₀ : Str} (hmac : Oui.normalize row.mac = some m₀)
    (hfree : ∀ r ∈ rows, ∀ x, hydratedIp row = some x → hydratedIp r ≠ some x)
    (hindex : ∀ x, s'.ipToMac.lookup x =
      if hydratedIp row = some x then some m₀ else s.ipToMac.lookup x)
    (hheld : ∀ m, s'.held m = if m = m₀ then hydratedIp row else s.held m) :
    Hydrated (rows ++ [row]) s' := by
  -- the row adds at most one pair of an address and a MAC
  have hmem : ∀ x m, (∃ r ∈ rows ++ [row], Loads r m x) ↔
      (∃ r ∈ rows, Loads r m x) ∨ m₀ = m ∧ hydratedIp row = some x := by
    intro x m
    simp [List.mem_append, or_and_right, exists_or, Loads, hmac]
  refine ⟨fun x m => ?_, fun x m hx => ?_, ?_⟩
  · rw [hindex, hmem]
    by_cases hrow : hydratedIp row = some x
    · have hnone : ¬ ∃ r ∈ rows, Loads r m x := fun ⟨r, hr, hloads⟩ =>
        hfree r hr x hrow hloads.2
      rw [if_pos hrow, Option.some.injEq, or_iff_right hnone, and_iff_left hrow]
    · rw [if_neg hrow, h.index, or_iff_left fun hand => hrow hand.2]
  · rw [hheld] at hx
    rw [hmem]
    split at hx
    · next hm => exact .inr ⟨hm.symm, hx⟩
    · exact .inl (h.held x m hx)
  · rw [rowsSettled_concat]
    constructor
    · intro hall
      -- a second row of a MAC would take away the address of the first
      have hlast : ∀ r ∈ rows, ∀ m x, Loads r m x → Oui.normalize row.mac ≠ some m := by
        intro r hr m x hloads heq
        obtain rfl : m₀ = m := Option.some.inj (hmac.symm.trans heq)
        have hkept := hall x m₀ ((hmem x m₀).mpr (.inl ⟨r, hr, hloads⟩))
        rw [hheld, if_pos rfl] at hkept
        exact hfree r hr x hkept hloads.2
      refine ⟨h.settled.mp ?_, hlast⟩
      rintro x m ⟨r, hr, hloads⟩
      have hne : m ≠ m₀ := fun heq => hlast r hr m x hloads (heq ▸ hmac)
      have hkept := hall x m ((hmem x m).mpr (.inl ⟨r, hr, hloads⟩))
      rwa [hheld, if_neg hne] at hkept
    · rintro ⟨hsettled, hlast⟩ x m hex
      rw [hheld]
      rcases (hmem x m).mp hex with ⟨r, hr, hloads⟩ | ⟨hm, hip⟩
      · have hne : m ≠ m₀ := fun heq => hlast r hr m x hloads (heq ▸ hmac)
        rw [if_neg hne]
        exact h.settled.mpr hsettled x m ⟨r, hr, hloads⟩
      · rw [if_pos hm.symm, hip]

/-- At most one row has an address. -/
def OneRow (rows : List Db.KnownDevice) : Prop := (rows.filterMap hydratedIp).Nodup

theorem oneRow_concat {rows : List Db.KnownDevice} {row : Db.KnownDevice}
    (h : OneRow (rows ++ [row])) :
    OneRow rows ∧ ∀ r ∈ rows, ∀ x, hydratedIp row = some x → hydratedIp r ≠ some x := by
  rw [OneRow, List.filterMap_append, List.nodup_append] at h
  refine ⟨h.1, fun r hr x hrow hr' => ?_⟩
  have hrows : x ∈ rows.filterMap hydratedIp := List.mem_filterMap.mpr ⟨r, hr, hr'⟩
  have hlast : x ∈ [row].filterMap hydratedIp :=
    List.mem_filterMap.mpr ⟨row, List.mem_singleton_self row, hrow⟩
  exact h.2.2 x hrows x hlast rfl

theorem lookup_hydratedIndex (index : HashMap Ipv4Addr Str) (ip : Option Ipv4Addr) (m : Str)
    (x : Ipv4Addr) :
    (match ip with
      | some ip => index.insert ip m
      | none => index).lookup x = if ip = some x then some m else index.lookup x := by
  cases ip with
  | none => rfl
  | some ip =>
    by_cases hx : x = ip
    · rw [hx, AList.lookup_insert, if_pos rfl]
    · have hne : ¬ some ip = some x := fun heq => hx (Option.some.inj heq).symm
      rw [if_neg hne]
      exact AList.lookup_insert_ne hx

theorem hydrated_hydrate (store : DeviceStore) (now : ℕ) {rows : List Db.KnownDevice}
    (hrows : OneRow rows) : Hydrated rows (store.hydrate rows now .empty).2 := by
  refine hydrate_induction store now (P := fun rows s => OneRow rows → Hydrated rows s) ?_ ?_
    rows hrows
  · intro _
    refine ⟨fun x m => ?_, fun x m hx => ?_, ?_⟩
    · simp [Inner.empty]
    · cases hx
    · simp [RowsSettled]
  · intro rows row s ih hone
    obtain ⟨hold, hfree⟩ := oneRow_concat hone
    cases hmac : Oui.normalize row.mac with
    | none =>
      rw [DeviceStore.hydrateRow, hmac]
      exact hydrated_skip (ih hold) hmac
    | some m₀ =>
      rw [DeviceStore.hydrateRow, hmac]
      apply hydrated_load (ih hold) hmac hfree
      · intro x
        exact lookup_hydratedIndex s.ipToMac (hydratedIp row) m₀ x
      · exact fun m => HashMap.bind_lookup_insert s.byMac m₀ m _ _

theorem agree_hydrate_iff (store : DeviceStore) (now : ℕ) {rows : List Db.KnownDevice}
    (hrows : OneRow rows) :
    IndexesAgree (store.hydrate rows now .empty).2 ↔ RowsSettled rows := by
  have h := hydrated_hydrate store now hrows
  rw [← h.settled, agree_iff]
  simp only [Lookup.Inverse, h.index]
  exact ⟨fun hagree x m => (hagree x m).mp, fun hall x m => ⟨hall x m, h.held x m⟩⟩

theorem settled_run_iff (codec : Codec) (store : DeviceStore) {st : Session}
    (h : IndexesAgree st.inner) (reports : List TimedReport) :
    Along (Session.report codec store) (fun r st => r.report.Settles st.inner) reports st ↔
      ∀ n, IndexesAgree (run (Session.report codec store) (reports.take n) st).inner :=
  along_iff_forall_take (I := fun st : Session => IndexesAgree st.inner)
    (Q := fun st : Session => IndexesAgree st.inner) (fun _ h => h)
    (fun r _ hr h => (agree_report_iff h codec store r).mpr hr)
    (fun r _ h hq => (agree_report_iff h codec store r).mp hq) h

/-- The indexes agree after hydration and after every report exactly if hydration forgets no
address and no report moves a device or an address. -/
theorem consistent_run_iff (codec : Codec) (store : DeviceStore) {rows : List Db.KnownDevice}
    (hrows : OneRow rows) (now : ℕ) (reports : List TimedReport) :
    (∀ n, Consistent store
        (run (Session.report codec store) (reports.take n) (.start store rows now)).inner) ↔
      RowsSettled rows ∧
        Along (Session.report codec store) (fun r st => r.report.Settles st.inner) reports
          (.start store rows now) := by
  have hconsistent : ∀ st : Session, Consistent store st.inner ↔ IndexesAgree st.inner :=
    fun st => ⟨Consistent.agree, fun h => consistent_of_agree h store⟩
  have hstart : IndexesAgree (Session.start store rows now).inner ↔ RowsSettled rows :=
    agree_hydrate_iff store now hrows
  simp only [hconsistent]
  constructor
  · intro hall
    refine ⟨hstart.mp (hall 0), (settled_run_iff codec store (hall 0) reports).mpr hall⟩
  · rintro ⟨hsettled, halong⟩
    exact (settled_run_iff codec store (hstart.mpr hsettled) reports).mp halong

def kitchenIp : Ipv4Addr := Ipv4Addr.ofOctets 192 168 1 9

def kitchenRow : Db.KnownDevice := ⟨kitchenMac, some kitchenIp.toText, none, none, false⟩

def kitchenStays : List TimedReport := [⟨.call (.observe kitchenIp kitchenMac), id⟩]

theorem consistent_run_iff_stays :
    Consistent plainStore (run (Session.report (.ofTable []) plainStore) kitchenStays
      (.start plainStore [kitchenRow] 0)).inner := by
  have hrows : OneRow [kitchenRow] := by
    rw [OneRow]
    decide
  refine (consistent_run_iff (.ofTable []) plainStore hrows 0 kitchenStays).mpr
    ⟨List.pairwise_singleton _ _, ?_, trivial⟩ 1
  have hsighted : (Call.observe kitchenIp kitchenMac).sighted = some (kitchenIp, kitchenMac) := by
    decide
  have hindex : (Session.start plainStore [kitchenRow] 0).inner.ipToMac.lookup kitchenIp =
      some kitchenMac := by decide
  have hheld : (Session.start plainStore [kitchenRow] 0).inner.held kitchenMac =
      some kitchenIp := by decide
  intro x m hsight
  obtain ⟨rfl, rfl⟩ := Prod.mk.inj (Option.some.inj (hsighted.symm.trans hsight))
  refine ⟨fun m' hm' => (Option.some.inj (hindex.symm.trans hm')).symm, fun d x' hd hx' => ?_⟩
  exact (Option.some.inj (hheld.symm.trans (held_eq_some_iff.mpr ⟨d, hd, hx'⟩))).symm

def kitchenMoves : List TimedReport :=
  [⟨.call (.observe kitchenIp kitchenMac), id⟩,
    ⟨.call (.observe (Ipv4Addr.ofOctets 192 168 1 10) kitchenMac), id⟩]

/-- The address a device has left still leads to it. -/
theorem not_consistent_run :
    (run (Session.report (.ofTable []) plainStore) kitchenMoves
      (.start plainStore [] 0)).inner.ipToMac.lookup kitchenIp = some kitchenMac ∧
    ¬ ∀ n, Consistent plainStore (run (Session.report (.ofTable []) plainStore)
      (kitchenMoves.take n) (.start plainStore [] 0)).inner := by
  have hleft : (run (Session.report (.ofTable []) plainStore) kitchenMoves
      (.start plainStore [] 0)).inner.ipToMac.lookup kitchenIp = some kitchenMac := by decide
  refine ⟨hleft, fun h => ?_⟩
  have hheld := (agree_iff.mp (h 2).agree kitchenIp kitchenMac).mp hleft
  exact absurd hheld (by decide)

end Netwatch.Devices
