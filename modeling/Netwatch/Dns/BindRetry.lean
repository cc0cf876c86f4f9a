import Netwatch.Dns.Cache
import Netwatch.Retry.Backoff

/-!
# Binding a listener

`bind_with_retry` of `dns/mod.rs`: while the address is in use the bind is attempted again, after
a delay that doubles up to five seconds, until the window is over. The clock is that of the
sleeps, in nanoseconds from the call on.

## Main definitions

- `bindWithRetry` — the loop, with what it returns, its attempts and its sleep
- `EndsRightly` — how the loop should end

## Main results

- `bindWithRetry_ends` — it ends, and rightly, for every outcome of the attempts
-/

namespace Netwatch.Dns

open RustStd Retry

/-- `Duration::from_millis` -/
def millis (n : ℕ) : ℕ := n * 1000000

/-- `std::io::ErrorKind`, with the kind the loop asks for. -/
inductive ErrorKind
  | addrInUse
  | other (kind : Str)
  deriving DecidableEq

/-- `std::io::Error` -/
structure OsError where
  kind : ErrorKind
  rawOsError : Option ℤ
  deriving DecidableEq

/-- The error of the last attempt under its context. -/
structure BindError where
  context : Str
  cause : OsError
  deriving DecidableEq

/-- EAFNOSUPPORT means the kernel has no IPv6 at all. -/
def bindHint (e : OsError) : Str :=
  if e.rawOsError = some 97 then "this host has no IPv6 support — unset dns.listen_v6".toList
  else "port 53 needs root or CAP_NET_BIND_SERVICE".toList

/-- `{what} ({hint})` -/
def bindError (what : Str) (e : OsError) : BindError where
  context := what ++ " (".toList ++ bindHint e ++ ")".toList
  cause := e

variable {α : Type}

structure BindOutcome (α : Type) where
  result : Except BindError α
  calls : ℕ
  slept : ℕ

def bindLoop (what : Str) (deadline : ℕ) (attempt : ℕ → Except OsError α) :
    ℕ → ℕ → ℕ → ℕ → Option (BindOutcome α)
  | 0, _, _, _ => none
  | fuel + 1, calls, now, delay =>
    match attempt calls with
    | .ok v => some ⟨.ok v, calls + 1, now⟩
    | .error e =>
      if e.kind = .addrInUse ∧ now < deadline then
        bindLoop what deadline attempt fuel (calls + 1) (now + delay) (min (delay * 2) (secs 5))
      else some ⟨.error (bindError what e), calls + 1, now⟩

/-- The `n`-th attempt comes out as `attempt n`. -/
def bindWithRetry (fuel : ℕ) (what : Str) (maxWait : ℕ) (attempt : ℕ → Except OsError α) :
    Option (BindOutcome α) :=
  bindLoop what maxWait attempt fuel 0 0 (millis 250)

/-- A quarter of a second, doubled every time up to five seconds. -/
def bindBackoff : Backoff where
  first := millis 250
  next d := min (d * 2) (secs 5)
  cap := secs 5
  first_pos := by decide
  first_le := by decide
  next_pos d hd := by
    have hcap : 0 < secs 5 := by decide
    omega
  next_le d := Nat.min_le_right _ _

def AddrInUse (e : OsError) : Prop := e.kind = .addrInUse

/-- The first success is returned if all before it failed because the address was in use and in
time; nothing is attempted after another error; and a lasting conflict is reported once the
window is over, less than five seconds late. -/
structure EndsRightly (what : Str) (maxWait : ℕ) (attempt : ℕ → Except OsError α)
    (outcome : BindOutcome α) : Prop where
  success : ∀ n v, attempt n = .ok v →
    (∀ i < n, (∃ e, attempt i = .error e ∧ AddrInUse e) ∧ bindBackoff.slept i < maxWait) →
      outcome.result = .ok v ∧ outcome.calls = n + 1
  final : ∀ n < outcome.calls, ∀ e, attempt n = .error e → ¬ AddrInUse e →
    outcome.calls = n + 1 ∧ outcome.result = .error (bindError what e)
  persistent : (∀ n, ∃ e, attempt n = .error e ∧ AddrInUse e) →
    (∃ e, attempt (outcome.calls - 1) = .error e ∧ outcome.result = .error (bindError what e)) ∧
      maxWait ≤ outcome.slept ∧ outcome.slept < maxWait + secs 5
  /-- What was slept are the delays between the attempts. -/
  slept : outcome.slept = bindBackoff.slept (outcome.calls - 1)

/-- What the loop returns after its last attempt, the `n`-th. -/
def bindOutcome (what : Str) (attempt : ℕ → Except OsError α) (n : ℕ) : BindOutcome α where
  result := (attempt n).mapError (bindError what)
  calls := n + 1
  slept := bindBackoff.slept n

section Loop

variable {what : Str} {maxWait : ℕ} {attempt : ℕ → Except OsError α}

theorem bindLoop_of_retried {n : ℕ}
    (h : bindBackoff.Retried AddrInUse attempt maxWait n) (fuel : ℕ) :
    bindLoop what maxWait attempt (fuel + 1) n (bindBackoff.slept n) (bindBackoff.delay n) =
      bindLoop what maxWait attempt fuel (n + 1) (bindBackoff.slept (n + 1))
        (bindBackoff.delay (n + 1)) := by
  obtain ⟨e, herror, hkind, hlt⟩ := h
  rw [bindLoop, herror]
  exact if_pos ⟨hkind, hlt⟩

theorem bindLoop_of_not_retried {n : ℕ}
    (h : ¬ bindBackoff.Retried AddrInUse attempt maxWait n) (fuel : ℕ) :
    bindLoop what maxWait attempt (fuel + 1) n (bindBackoff.slept n) (bindBackoff.delay n) =
      some (bindOutcome what attempt n) := by
  rw [bindLoop, bindOutcome]
  cases herror : attempt n with
  | ok v => rfl
  | error e => exact if_neg fun hretry => h ⟨e, herror, hretry⟩

theorem bindWithRetry_of_isLast {n : ℕ} (h : bindBackoff.IsLast AddrInUse attempt maxWait n)
    {fuel : ℕ} (hfuel : n < fuel) :
    bindWithRetry fuel what maxWait attempt = some (bindOutcome what attempt n) :=
  Backoff.loop_eq_of_isLast (fun fuel _ hm => bindLoop_of_not_retried hm fuel)
    (fun fuel _ hm => bindLoop_of_retried hm fuel) h hfuel

theorem endsRightly_of_isLast {n : ℕ} (h : bindBackoff.IsLast AddrInUse attempt maxWait n) :
    EndsRightly what maxWait attempt (bindOutcome what attempt n) where
  success := by
    intro m v hok hbefore
    have hlast : bindBackoff.IsLast AddrInUse attempt maxWait m := by
      refine ⟨?_, fun i hi => ?_⟩
      · rintro ⟨e, herror, -⟩
        rw [hok] at herror
        cases herror
      · obtain ⟨⟨e, herror, hkind⟩, hlt⟩ := hbefore i hi
        exact ⟨e, herror, hkind, hlt⟩
    obtain rfl := h.unique hlast
    exact ⟨by rw [bindOutcome, hok]; rfl, rfl⟩
  final := by
    intro m hm e herror hkind
    have hnot : ¬ bindBackoff.Retried AddrInUse attempt maxWait m := by
      rintro ⟨e', herror', hkind', -⟩
      rw [herror] at herror'
      exact hkind ((Except.error.inj herror') ▸ hkind')
    obtain rfl := h.eq_of_not_retried (Nat.le_of_lt_succ hm) hnot
    exact ⟨rfl, by rw [bindOutcome, herror]; rfl⟩
  persistent := by
    intro hall
    obtain ⟨e, herror, hkind⟩ := hall n
    refine ⟨⟨e, herror, ?_⟩, h.deadline_le_slept herror hkind, h.slept_lt⟩
    rw [bindOutcome, herror]
    rfl
  slept := rfl

end Loop

/-- With fuel for every nanosecond of the window the loop ends, whatever the attempts come to. -/
theorem bindWithRetry_ends (what : Str) (maxWait : ℕ) (attempt : ℕ → Except OsError α) :
    ∃ outcome, (∀ fuel, maxWait < fuel → bindWithRetry fuel what maxWait attempt = some outcome) ∧
      EndsRightly what maxWait attempt outcome := by
  obtain ⟨n, hle, hlast⟩ := Backoff.exists_isLast bindBackoff AddrInUse attempt maxWait
  exact ⟨bindOutcome what attempt n,
    fun fuel hfuel => bindWithRetry_of_isLast hlast (Nat.lt_of_le_of_lt hle hfuel),
    endsRightly_of_isLast hlast⟩

/-- A conflict that outlasts a window of 700 ms is reported after three attempts. -/
example :
    (bindWithRetry 5 "binding UDP 0.0.0.0:53".toList (millis 700)
      fun _ => (.error ⟨.addrInUse, some 98⟩ : Except OsError ℕ)).map
        (fun o => (o.calls, o.slept)) = some (3, millis 750) := by
  decide

end Netwatch.Dns
