import Netwatch.Devices.Naming

/-!
# Reverse lookups

`reverse_dns_worker` of `devices.rs` asks for the names of the addresses whose device has none,
and gives up on an address after a few tries. The tries are forgotten whenever a lookup brings a
name, even a name that the registry then rejects.

## Main definitions

- `ReverseDns.State` — the registry, and where the worker is
- `ReverseDns.step` — the worker, with the calls of all other tasks in between
- `ReverseDns.lookups` — the lookups a run sends for an address

## Main results

- `lookups_add_tries_le` — one step, and with it a run, in which the device stays without a name
- `bounded_of_accepted` — the lookups are bounded in runs that bring acceptable names
-/

namespace Netwatch.Devices

open RustStd Interleaving

/-- The device at the address has no hostname. -/
def Inner.unnamed (ip : Ipv4Addr) (s : Inner) : Bool :=
  (s.ipToMac.lookup ip).any fun m => (s.nameOf m).isNone

/-- `ips_needing_names` -/
def Inner.ipsNeedingNames (s : Inner) : List Ipv4Addr :=
  (s.ipToMac.entries.filter fun e => e.1 ∉ s.pendingNames ∧
    (s.byMac.lookup e.2).all fun d => d.hostname.isNone).map Sigma.fst

namespace ReverseDns

/-- `MAX_ATTEMPTS` -/
def maxAttempts : ℕ := 3

structure State where
  inner : Inner
  attempts : HashMap Ipv4Addr ℕ := ∅
  /-- What is left of the listing of this tick. -/
  queue : List Ipv4Addr := []
  /-- The lookup that is under way. -/
  asked : Option Ipv4Addr := none

inductive Act
  /-- Another task reports to the registry. -/
  | call (c : Call) (now : ℕ)
  /-- The addresses that need names, listed in some order. -/
  | tick (order : List Ipv4Addr)
  /-- The next address of the listing. -/
  | turn
  | answer (name : Option Str) (now : ℕ)
  deriving DecidableEq

/-- How often an address was asked for since its entry was made. -/
def State.tries (ip : Ipv4Addr) (w : State) : ℕ := (w.attempts.lookup ip).getD 0

/-- The body of the loop, up to the lookup. -/
def turn (w : State) : State :=
  match w.queue with
  | [] => w
  | ip :: queue =>
    let attempts := w.attempts.orInsert ip 0
    if w.tries ip ≥ maxAttempts then { w with attempts, queue }
    else { w with attempts := attempts.insert ip (w.tries ip + 1), queue, asked := some ip }

/-- The body of the loop, from the lookup on. -/
def answer (store : DeviceStore) (ip : Ipv4Addr) (name : Option Str) (now : ℕ) (w : State) :
    State :=
  match name with
  | none => { w with asked := none }
  | some name =>
    { w with
      inner := (store.observeNameForIp ip name now w.inner).1
      attempts := w.attempts.erase ip
      asked := none }

def step (store : DeviceStore) (a : Act) (w : State) : State :=
  match a with
  | .call c now => { w with inner := (c.exec store now w.inner).1 }
  | .tick order =>
    if w.asked = none ∧ w.queue = [] ∧ order.Perm w.inner.ipsNeedingNames then
      { w with queue := order }
    else w
  | .turn => if w.asked = none then turn w else w
  | .answer name now =>
    match w.asked with
    | none => w
    | some ip => answer store ip name now w

/-- The step sends a lookup for the address. -/
def sends (store : DeviceStore) (ip : Ipv4Addr) (a : Act) (w : State) : Bool :=
  w.asked == none && (step store a w).asked == some ip

def lookups (store : DeviceStore) (ip : Ipv4Addr) : List Act → State → ℕ
  | [], _ => 0
  | a :: acts, w => (if sends store ip a w then 1 else 0) + lookups store ip acts (step store a w)

/-- The device at the address has no hostname, at the start and after every step. -/
def UnnamedAlong (store : DeviceStore) (ip : Ipv4Addr) (acts : List Act) (w : State) : Prop :=
  w.inner.unnamed ip = true ∧
    Along (step store) (fun a w => (step store a w).inner.unnamed ip = true) acts w

/-- In any part of the run in which the device at an address has no hostname, the lookups for that
address are bounded. -/
def Bounded (store : DeviceStore) (acts : List Act) (w : State) : Prop :=
  ∀ ip before during after, acts = before ++ during ++ after →
    UnnamedAlong store ip during (run (step store) before w) →
      lookups store ip during (run (step store) before w) ≤ maxAttempts

/-- A name that a lookup brings for a device without one passes `sanitize_hostname`. -/
def Accepted (a : Act) (w : State) : Prop :=
  ∀ name now ip, a = .answer (some name) now → w.asked = some ip → w.inner.unnamed ip = true →
    sanitizeHostname name ≠ none

/-! ### One step -/

section Step

variable {store : DeviceStore} {ip : Ipv4Addr} {w : State}

theorem tries_orInsert (other : Ipv4Addr) (attempts : HashMap Ipv4Addr ℕ) :
    ((attempts.orInsert other 0).lookup ip).getD 0 = (attempts.lookup ip).getD 0 := by
  rw [HashMap.lookup_orInsert]
  split
  · next h =>
    rw [h]
    cases attempts.lookup other <;> rfl
  · rfl

theorem turn_cases (w : State) :
    turn w = w ∨
    (∃ other queue, maxAttempts ≤ w.tries other ∧
      turn w = { w with attempts := w.attempts.orInsert other 0, queue }) ∨
    (∃ other queue, w.tries other < maxAttempts ∧ turn w =
      { w with
        attempts := (w.attempts.orInsert other 0).insert other (w.tries other + 1), queue
        asked := some other }) := by
  rw [turn]
  cases w.queue with
  | nil => exact .inl rfl
  | cons other queue =>
    dsimp only
    by_cases hspent : w.tries other ≥ maxAttempts
    · exact .inr (.inl ⟨other, queue, hspent, if_pos hspent⟩)
    · exact .inr (.inr ⟨other, queue, by omega, if_neg hspent⟩)

/-- Whether the step leaves a lookup for the address under way, when none was. -/
theorem sends_iff {a : Act} : sends store ip a w = true ↔
    w.asked = none ∧ (step store a w).asked = some ip := by
  rw [sends, Bool.and_eq_true, beq_iff_eq, beq_iff_eq]

theorem tries_of_not_sends {a : Act} (htries : (step store a w).tries ip = w.tries ip)
    (hsends : ¬ (w.asked = none ∧ (step store a w).asked = some ip)) :
    (step store a w).tries ip = w.tries ip + (if sends store ip a w then 1 else 0) ∧
      (sends store ip a w = true → w.tries ip < maxAttempts) := by
  rw [← sends_iff] at hsends
  rw [if_neg hsends, htries]
  exact ⟨rfl, fun h => absurd h hsends⟩

/-- A lookup is counted, and sent while there are tries left. -/
theorem tries_turn (hasked : w.asked = none) :
    (step store .turn w).tries ip = w.tries ip + (if sends store ip .turn w then 1 else 0) ∧
      (sends store ip .turn w = true → w.tries ip < maxAttempts) := by
  have hstep : step store .turn w = turn w := if_pos hasked
  obtain hsame | ⟨other, queue, -, hspent⟩ | ⟨other, queue, hleft, hturn⟩ := turn_cases w
  -- nothing to look up
  · rw [hsame] at hstep
    refine tries_of_not_sends (by rw [hstep]) ?_
    rw [hstep, hasked]
    rintro ⟨-, h⟩
    cases h
  -- an address without tries left is passed over
  · rw [hspent] at hstep
    refine tries_of_not_sends ?_ ?_
    · rw [hstep]
      exact tries_orInsert other w.attempts
    · rw [hstep]
      dsimp only
      rw [hasked]
      rintro ⟨-, h⟩
      cases h
  · rw [hturn] at hstep
    by_cases hip : other = ip
    · subst hip
      have hsends : sends store other .turn w = true := sends_iff.mpr ⟨hasked, by rw [hstep]⟩
      refine ⟨?_, fun _ => hleft⟩
      rw [if_pos hsends, hstep, State.tries, HashMap.lookup_insert, if_pos rfl]
      rfl
    -- a lookup of another address
    · refine tries_of_not_sends ?_ ?_
      · rw [hstep, State.tries, HashMap.lookup_insert, if_neg (Ne.symm hip)]
        exact tries_orInsert other w.attempts
      · rw [hstep]
        rintro ⟨-, h⟩
        exact hip (Option.some.inj h)

/-- An acceptable name for an address ends the time in which its device has none. -/
theorem unnamed_observeNameForIp (store : DeviceStore) {s : Inner} {name : Str} (now : ℕ)
    (hname : sanitizeHostname name ≠ none) (h : s.unnamed ip = true) :
    (store.observeNameForIp ip name now s).1.unnamed ip = false := by
  obtain ⟨clean, hclean⟩ := Option.ne_none_iff_exists'.mp hname
  rw [Inner.unnamed, Option.any_eq_true] at h
  obtain ⟨m, hm, -⟩ := h
  have hdevice : (store.observeNameForIp ip name now s).1.nameOf m ≠ none := by
    rw [DeviceStore.observeNameForIp, hclean, hm]
    dsimp only
    rw [Inner.nameOf, HashMap.bind_lookup_insert, if_pos rfl,
      (takeWriteSlot_keeps store.fingerprint now _).2]
    cases ((s.byMac.lookup m).getD _).hostname <;> simp
  have hip : (store.observeNameForIp ip name now s).1.ipToMac.lookup ip = some m := by
    rw [DeviceStore.observeNameForIp, hclean, hm]
    exact hm
  rw [Inner.unnamed, hip, Option.any_some, Option.isNone_eq_false_iff, Option.isSome_iff_ne_none]
  exact hdevice

theorem tries_step {a : Act} (haccepted : Accepted a w) (hbefore : w.inner.unnamed ip = true)
    (hafter : (step store a w).inner.unnamed ip = true) :
    (step store a w).tries ip = w.tries ip + (if sends store ip a w then 1 else 0) ∧
      (sends store ip a w = true → w.tries ip < maxAttempts) := by
  cases a with
  | call c now =>
    -- calls of other tasks leave the worker alone
    refine tries_of_not_sends rfl ?_
    rintro ⟨hnone, hsome⟩
    exact absurd (hnone.symm.trans hsome) (by simp)
  | tick order =>
    have hkeeps : (step store (.tick order) w).attempts = w.attempts ∧
        (step store (.tick order) w).asked = w.asked := by
      rw [step]
      split <;> exact ⟨rfl, rfl⟩
    refine tries_of_not_sends (by rw [State.tries, State.tries, hkeeps.1]) ?_
    rw [hkeeps.2]
    rintro ⟨hnone, hsome⟩
    exact absurd (hnone.symm.trans hsome) (by simp)
  | turn =>
    by_cases hasked : w.asked = none
    · exact tries_turn hasked
    · exact tries_of_not_sends (by rw [step, if_neg hasked]) fun h => hasked h.1
  | answer name now =>
    cases hasked : w.asked with
    | none =>
      -- an answer that nobody waits for
      have hstep : step store (.answer name now) w = w := by rw [step, hasked]
      refine tries_of_not_sends (by rw [hstep]) ?_
      rw [hstep, hasked]
      rintro ⟨-, h⟩
      cases h
    | some other =>
      have hstep : step store (.answer name now) w = answer store other name now w := by
        rw [step, hasked]
      refine tries_of_not_sends ?_ fun h => absurd (hasked.symm.trans h.1) (by simp)
      rw [hstep]
      cases name with
      | none => rfl
      | some name =>
        -- `ip` still has no name, so the answer is for another address
        have hne : ip ≠ other := by
          rintro rfl
          rw [hstep] at hafter
          have hnamed := unnamed_observeNameForIp store now
            (haccepted name now ip rfl hasked hbefore) hbefore
          exact absurd (hnamed.symm.trans hafter) (by decide)
        rw [State.tries, State.tries]
        exact congrArg (Option.getD · 0) (AList.lookup_erase_ne hne)

/-! ### Every run -/

/-- As long as the device has no name, the tries are not forgotten. -/
theorem lookups_add_tries_le {acts : List Act} (haccepted : Along (step store) Accepted acts w)
    (hunnamed : UnnamedAlong store ip acts w) :
    lookups store ip acts w + w.tries ip ≤ max maxAttempts (w.tries ip) := by
  induction acts generalizing w with
  | nil => exact (Nat.zero_add _).le.trans (le_max_right _ _)
  | cons a acts ih =>
    obtain ⟨hbefore, hafter, hrest⟩ := hunnamed
    obtain ⟨htries, hleft⟩ := tries_step haccepted.1 hbefore hafter
    have hle := ih haccepted.2 ⟨hafter, hrest⟩
    rw [htries] at hle
    rw [lookups]
    by_cases hsends : sends store ip a w = true
    · rw [if_pos hsends] at hle ⊢
      have hlt := hleft hsends
      omega
    · rw [if_neg hsends] at hle ⊢
      omega

end Step

theorem bounded_of_accepted (store : DeviceStore) (inner : Inner) (acts : List Act)
    (h : Along (step store) Accepted acts { inner }) : Bounded store acts { inner } := by
  intro ip before during after hsplit hunnamed
  rw [hsplit, along_append, along_append] at h
  have hle := lookups_add_tries_le h.1.2 hunnamed
  omega

def kitchenIp : Ipv4Addr := Ipv4Addr.ofOctets 192 168 1 10

def kitchenSighted : Act := .call (.observe kitchenIp kitchenMac) 0

/-- One tick at which the address is asked for. -/
def round (name : Option Str) : List Act := [.tick [kitchenIp], .turn, .answer name 0]

theorem bounded_of_accepted_kitchen :
    Bounded plainStore (kitchenSighted :: round none ++ round (some "kitchen-pi".toList))
      { inner := .empty } := by
  refine bounded_of_accepted plainStore .empty _ ?_
  have hother : ∀ {a : Act} {w : State}, (∀ name now, a ≠ .answer (some name) now) →
      Accepted a w := fun hne name now _ h _ _ => absurd h (hne name now)
  refine ⟨hother (by simp [kitchenSighted]), hother (by simp), hother (by simp), hother (by simp),
    hother (by simp), hother (by simp), fun name now ip h _ _ => ?_, trivial⟩
  cases h
  decide

/-- The PTR record of the address points at the root, so that every lookup brings an empty name. -/
theorem not_bounded : ¬ ∀ store inner acts, Bounded store acts { inner } := by
  intro h
  have hle := h plainStore .empty (kitchenSighted :: (round (some []) ++ round (some []) ++
    round (some []) ++ round (some []))) kitchenIp [kitchenSighted]
    (round (some []) ++ round (some []) ++ round (some []) ++ round (some [])) [] rfl
    ⟨by decide, by decide⟩
  exact absurd hle (by decide)

end ReverseDns

end Netwatch.Devices
