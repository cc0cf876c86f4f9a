import Netwatch.Dns.Resolver
import Netwatch.Sql.Table

/-!
# What the writer stores

The tables of `db.rs` and the one transaction that writes them: `flush` executes the
statements of a batch in order and commits, or leaves the tables as they were.

## Main definitions

- `WriteOp` — what is handed to the writer
- `Tables.execute` — the statements of one op
- `flush` — one batch, with the statement that fails, if one does
- `prune` — retention
-/

namespace Netwatch

open RustStd

namespace Dns

def QueryStatus.asStr : QueryStatus → Str
  | .forwarded => "forwarded".toList
  | .cached => "cached".toList
  | .blocked => "blocked".toList
  | .nxDomain => "nxdomain".toList
  | .servFail => "servfail".toList
  | .refused => "refused".toList

end Dns

namespace Db

open Dns (QueryEvent)

/-- Interface throughput sample. -/
structure IfaceSample where
  ts : ℤ
  iface : Str
  rxBytes : ℤ
  txBytes : ℤ
  rxBps : ℤ
  txBps : ℤ

/-- A sighting of a device. `none` fields leave the existing value alone. -/
structure DeviceOp where
  mac : Str
  ip : Option Str
  hostname : Option Str
  vendor : Option Str
  randomized : Bool
  ts : ℤ
  deriving DecidableEq

inductive WriteOp
  | query (event : QueryEvent)
  | iface (sample : IfaceSample)
  | latency (ts : ℤ) (target : Str) (ms : Float)
  | alert (ts : ℤ) (kind severity subject detail : Str) (notified : Bool)
  | device (sighting : DeviceOp)

/-- A row of `queries`. -/
structure QueryRecord where
  id : ℕ
  ts : ℤ
  clientIp : Str
  domain : Str
  qtype : Str
  status : Str
  elapsedMs : Option UInt32
  answer : Option Str
  blocklist : Option Str
  deriving DecidableEq

/-- A row of `devices`. There is no uniqueness constraint on `ip`. -/
structure DeviceRecord where
  mac : Str
  ip : Option Str
  hostname : Option Str
  vendor : Option Str
  randomized : Bool
  firstSeen : ℤ
  lastSeen : ℤ
  deriving DecidableEq

/-- A row of `alerts`. -/
structure AlertRow where
  id : ℕ
  ts : ℤ
  kind : Str
  severity : Str
  subject : Str
  detail : Str
  notified : Bool

/-- A row of `latency`. -/
structure LatencyRecord where
  ts : ℤ
  target : Str
  ms : Float

structure Tables where
  queries : Sql.AutoTable QueryRecord.id
  devices : Sql.Table DeviceRecord.mac
  ifaceSamples : List IfaceSample
  latency : List LatencyRecord
  alerts : Sql.AutoTable AlertRow.id

namespace Tables

/-- A database on which only the schema has been applied. -/
def fresh : Tables := ⟨.empty, .empty, [], [], .empty⟩

def insertQuery (e : QueryEvent) (t : Tables) : Tables :=
  { t with
    queries := t.queries.insert
      (fun id =>
        { id, ts := e.ts, clientIp := e.clientIp, domain := e.domain, qtype := e.qtype
          status := e.status.asStr, elapsedMs := e.elapsedMs, answer := e.answer
          blocklist := e.blocklist })
      (fun _ => rfl) }

def insertAlert (ts : ℤ) (kind severity subject detail : Str) (notified : Bool)
    (t : Tables) : Tables :=
  { t with
    alerts := t.alerts.insert
      (fun id => { id, ts, kind, severity, subject, detail, notified }) (fun _ => rfl) }

/-- The previous holder of an address gives it up. -/
def releaseIp (ip mac : Str) (t : Tables) : Tables :=
  { t with
    devices := t.devices.update
      (fun r => if r.ip = some ip ∧ r.mac ≠ mac then { r with ip := none } else r)
      (fun r => by split <;> rfl) }

/-- What `ON CONFLICT(mac) DO UPDATE` leaves of a row: `COALESCE` keeps what was learned
before when this sighting does not carry it. -/
def coalesce (d : DeviceOp) (r : DeviceRecord) : DeviceRecord :=
  { r with
    ip := d.ip.or r.ip
    hostname := d.hostname.or r.hostname
    vendor := d.vendor.or r.vendor
    randomized := d.randomized
    lastSeen := d.ts }

theorem mac_coalesce (d : DeviceOp) (r : DeviceRecord) : (coalesce d r).mac = r.mac := rfl

def upsertDevice (d : DeviceOp) (t : Tables) : Tables :=
  { t with
    devices := t.devices.upsert
      { mac := d.mac, ip := d.ip, hostname := d.hostname, vendor := d.vendor
        randomized := d.randomized, firstSeen := d.ts, lastSeen := d.ts }
      (coalesce d) (mac_coalesce d) }

end Tables

abbrev Statement := Tables → Tables

/-- The statements `flush` executes for one op. -/
def WriteOp.statements : WriteOp → List Statement
  | .alert ts kind severity subject detail notified =>
    [Tables.insertAlert ts kind severity subject detail notified]
  | .query e => [Tables.insertQuery e]
  | .iface s => [fun t => { t with ifaceSamples := t.ifaceSamples ++ [s] }]
  | .latency ts target ms => [fun t => { t with latency := t.latency ++ [⟨ts, target, ms⟩] }]
  | .device d =>
    match d.ip with
    | some ip => [Tables.releaseIp ip d.mac, Tables.upsertDevice d]
    | none => [Tables.upsertDevice d]

def Tables.execute (t : Tables) (op : WriteOp) : Tables :=
  op.statements.foldl (fun t statement => statement t) t

def Tables.executeAll (t : Tables) (ops : List WriteOp) : Tables := ops.foldl execute t

/-- The statements of a transaction from the `n`-th on; `fails` tells which one returns an
error. -/
def runStatements (fails : ℕ → Bool) : ℕ → List Statement → Tables → Option Tables
  | _, [], t => some t
  | n, statement :: rest, t =>
    if fails n then none else runStatements fails (n + 1) rest (statement t)

/-- One batch in one transaction. Opening it is step 0 and committing it the last step. An
error returns early, and the transaction is rolled back when it is dropped. -/
def flush (fails : ℕ → Bool) (t : Tables) (ops : List WriteOp) : Bool × Tables :=
  let statements := ops.flatMap WriteOp.statements
  if fails 0 then (false, t)
  else match runStatements fails 1 statements t with
  | none => (false, t)
  | some t' => if fails (statements.length + 1) then (false, t) else (true, t')

/-- How long recorded alerts are kept. -/
def alertRetentionDays : ℤ := 90

/-- Retention. The deletes commit one by one and stop at the first that fails; `done` of
them take effect. -/
def prune (now : ℤ) (retentionDays : ℕ) (done : ℕ) (t : Tables) : Tables :=
  let cutoff := now - retentionDays * 86400
  let ifaceCutoff := now - 3 * 86400
  let alertCutoff := now - alertRetentionDays * 86400
  let deletes : List Statement :=
    [fun t => { t with queries := t.queries.keep fun r => ¬ r.ts < cutoff },
      fun t => { t with ifaceSamples := t.ifaceSamples.filter fun r => ¬ r.ts < ifaceCutoff },
      fun t => { t with latency := t.latency.filter fun r => ¬ r.ts < ifaceCutoff },
      fun t => { t with alerts := t.alerts.keep fun r => ¬ r.ts < alertCutoff }]
  (deletes.take done).foldl (fun t delete => delete t) t

theorem runStatements_cases (fails : ℕ → Bool) (n : ℕ) (statements : List Statement)
    (t : Tables) :
    runStatements fails n statements t = none ∨
      runStatements fails n statements t =
        some (statements.foldl (fun t statement => statement t) t) := by
  induction statements generalizing n t with
  | nil => exact .inr rfl
  | cons statement rest ih =>
    rw [runStatements]
    split
    · exact .inl rfl
    · exact ih (n + 1) (statement t)

theorem foldl_statements (t : Tables) (ops : List WriteOp) :
    (ops.flatMap WriteOp.statements).foldl (fun t statement => statement t) t =
      t.executeAll ops := by
  induction ops generalizing t with
  | nil => rfl
  | cons op ops ih => rw [List.flatMap_cons, List.foldl_append]; exact ih (t.execute op)

/-- A batch is written as a whole or not at all. -/
theorem flush_cases (fails : ℕ → Bool) (t : Tables) (ops : List WriteOp) :
    flush fails t ops = (false, t) ∨ flush fails t ops = (true, t.executeAll ops) := by
  rw [flush]
  split
  · exact .inl rfl
  · obtain hrun | hrun :=
      runStatements_cases fails 1 (ops.flatMap WriteOp.statements) t
    · rw [hrun]
      exact .inl rfl
    · rw [hrun, foldl_statements]
      dsimp only
      split
      · exact .inl rfl
      · exact .inr rfl

theorem isSome_runStatements_iff {fails : ℕ → Bool} {n : ℕ} {statements : List Statement}
    {t : Tables} :
    (runStatements fails n statements t).isSome = true ↔
      ∀ i, n ≤ i → i < n + statements.length → fails i = false := by
  induction statements generalizing n t with
  | nil =>
    simp only [runStatements, Option.isSome_some, List.length_nil, Nat.add_zero, true_iff]
    intro i hle hlt
    omega
  | cons statement rest ih =>
    rw [runStatements]
    split
    · next hfail =>
      simp only [Option.isSome_none, Bool.false_eq_true, false_iff]
      intro h
      have hn := h n (Nat.le_refl n) (by simp)
      rw [hfail] at hn
      cases hn
    · next hok =>
      rw [ih]
      constructor
      · intro h i hle hlt
        by_cases hi : i = n
        · subst hi
          simpa using hok
        · exact h i (by omega) (by simp only [List.length_cons] at hlt; omega)
      · intro h i hle hlt
        exact h i (by omega) (by simp only [List.length_cons]; omega)

/-- No step of the transaction that writes `ops` fails. -/
def Undisturbed (fails : ℕ → Bool) (ops : List WriteOp) : Prop :=
  ∀ n ≤ (ops.flatMap WriteOp.statements).length + 1, fails n = false

theorem flush_fst_iff {fails : ℕ → Bool} {t : Tables} {ops : List WriteOp} :
    (flush fails t ops).1 = true ↔ Undisturbed fails ops := by
  have hrun := @isSome_runStatements_iff fails 1 (ops.flatMap WriteOp.statements) t
  rw [flush, Undisturbed]
  cases hopen : fails 0 with
  | true =>
    simp only [if_true, Bool.false_eq_true, false_iff]
    intro h
    rw [h 0 (Nat.zero_le _)] at hopen
    cases hopen
  | false =>
    simp only [Bool.false_eq_true, if_false]
    cases hr : runStatements fails 1 (ops.flatMap WriteOp.statements) t with
    | none =>
      simp only [hr, Option.isSome_none, Bool.false_eq_true, false_iff] at hrun ⊢
      exact fun h => hrun fun i _ hlt => h i (by omega)
    | some t' =>
      simp only [hr, Option.isSome_some, true_iff] at hrun
      cases hcommit : fails ((ops.flatMap WriteOp.statements).length + 1) with
      | true =>
        simp only [if_true, Bool.false_eq_true, false_iff]
        intro h
        rw [h _ (Nat.le_refl _)] at hcommit
        cases hcommit
      | false =>
        simp only [Bool.false_eq_true, if_false, true_iff]
        intro n hn
        -- opening, the statements, and the commit
        by_cases hzero : n = 0
        · rw [hzero, hopen]
        · by_cases hlast : n = (ops.flatMap WriteOp.statements).length + 1
          · rw [hlast, hcommit]
          · exact hrun n (by omega) (by omega)

/-- Retention never touches the devices. -/
theorem devices_prune (now : ℤ) (retentionDays done : ℕ) (t : Tables) :
    (prune now retentionDays done t).devices = t.devices := by
  have hkeep : ∀ (deletes : List Statement), (∀ d ∈ deletes, ∀ t, (d t).devices = t.devices) →
      ∀ t : Tables, (deletes.foldl (fun t delete => delete t) t).devices = t.devices := by
    intro deletes
    induction deletes with
    | nil => intro _ t; rfl
    | cons d deletes ih =>
      intro h t
      rw [List.foldl_cons, ih (fun e he => h e (List.mem_cons_of_mem d he))]
      exact h d List.mem_cons_self t
  refine hkeep _ (fun d hd t => ?_) t
  have hmem := List.mem_of_mem_take hd
  simp only [List.mem_cons, List.not_mem_nil, or_false] at hmem
  obtain rfl | rfl | rfl | rfl := hmem <;> rfl

end Db

end Netwatch
