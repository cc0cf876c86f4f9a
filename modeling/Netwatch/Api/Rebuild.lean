import Netwatch.Blocklist.Build
import Netwatch.Blocklist.ManualIo
import Netwatch.Dns.Cache
import Netwatch.Interleaving.Run
import Mathlib.Logic.Function.Basic

/-!
# The live matcher and the files it is made from

The handlers of `api.rs` that change a list and the periodic refresh of `main.rs`, as
concurrent tasks over one disk, one live matcher and one refresh lock. Every one of them
ends with a rebuild: read all files into a fresh matcher, swap it in, flush the cache. What the
file system answers to an edit or to the reads of a build is left open.

## Main definitions

- `Task` — a mutating request or a tick of the refresh
- `Io` — what the file system answers to one step
- `Server.step` — the next step of a task, a finished download, or a missed deadline
- `Bringing` — a task that is still to install the files as they are
- `Permitted` — a step after which somebody has installed or will install them

## Main results

- `converging_step_iff` — a step keeps the matcher on its way to the files just if it is permitted
- `Converging.settled` — once all tasks have finished, it is the matcher of the files
-/

namespace Netwatch.Api

open RustStd Blocklist Interleaving

inductive Task
  | addDeny (domain : Str)
  | removeDeny (domain : Str)
  | addAllow (domain : Str)
  | removeAllow (domain : Str)
  | reload
  /-- One tick of the periodic refresh. -/
  | refresh
  deriving DecidableEq

/-- How a task ended; a refresh has nobody to reply to. -/
inductive Outcome
  | ok (blockedDomains : ℕ)
  /-- `{:?} is not a valid domain` -/
  | badRequest (domain : Str)
  | serverError (e : ManualError)
  /-- `a blocklist refresh is already running` -/
  | conflict
  /-- `all {} blocklist sources failed, keeping the cached copies` -/
  | badGateway (attempted : ℕ)
  /-- `request timed out` -/
  | timedOut
  deriving DecidableEq

/-- A matcher with the files `build` made it from. -/
structure Built (cfg : Config) where
  disk : Disk
  matcher : Blocklist
  matcher_eq : matcher = build cfg disk

def Built.of (cfg : Config) (disk : Disk) : Built cfg := ⟨disk, build cfg disk, rfl⟩

/-- What the file system answers to one step of a task. -/
structure Io where
  edit : EditIo := {}
  /-- The files that are there and cannot be read. -/
  unreadable : Str → Bool := fun _ => false

/-- The disk as a build reads it. -/
def Io.reads (io : Io) (disk : Disk) : Disk := fun path =>
  if io.unreadable path ∧ disk path ≠ .missing then .garbled else disk path

theorem reads_default (disk : Disk) : Io.reads {} disk = disk := by
  funext path
  simp [Io.reads]

inductive Phase (cfg : Config)
  | ready
  /-- Holds the refresh lock: the sources left, how many were tried and how many succeeded. -/
  | refreshing (urls : List Str) (attempted succeeded : ℕ)
  | building
  | built (fresh : Built cfg)
  | swapped (len : ℕ)
  | finished (outcome : Outcome)

/-- A task in this phase will install the files on this disk, unless it is dropped. -/
def Phase.Brings {cfg : Config} (disk : Disk) : Phase cfg → Prop
  | .refreshing _ _ succeeded => 0 < succeeded
  | .building => True
  | .built fresh => fresh.disk = disk
  | .ready | .swapped _ | .finished _ => False

structure Server (cfg : Config) (ι : Type) where
  disk : Disk
  live : Built cfg
  refreshLock : Option ι
  cache : Dns.Cache
  phase : ι → Phase cfg

/-- What `fetch_one` gets for one source; `none` is a body that is not UTF-8. -/
inductive Download
  | failed
  | body (contents : Option Str)

inductive Action (ι : Type)
  | advance (i : ι) (io : Io := {})
  | download (i : ι) (d : Download)
  | deadline (i : ι)

/-- The disk after a download, unless it failed. -/
def fetchOne (path : Str) (d : Download) (disk : Disk) : Option Disk :=
  match d with
  | .failed => none
  | .body none => some (Function.update disk path .garbled)
  | .body (some contents) =>
    -- `empty response body`
    if contents = [] then none else some (Function.update disk path (.text contents))

namespace Server

variable {cfg : Config} {ι : Type} [DecidableEq ι]

def setPhase (i : ι) (p : Phase cfg) (s : Server cfg ι) : Server cfg ι :=
  { s with phase := Function.update s.phase i p }

/-- The guard of the lock is dropped with the task that holds it. -/
def finish (i : ι) (outcome : Outcome) (s : Server cfg ι) : Server cfg ι :=
  let refreshLock := if s.refreshLock = some i then none else s.refreshLock
  setPhase i (.finished outcome) { s with refreshLock }

/-- A handler up to its rebuild: check the domain, then edit the list. -/
def editList (path : Str) (edit : Edit) (i : ι) (io : Io) (s : Server cfg ι) : Server cfg ι :=
  if !isValidDomain edit.domain then finish i (.badRequest edit.domain) s
  else
    let (result, file) := edit.perform io.edit (s.disk path)
    let s := { s with disk := Function.update s.disk path file }
    match result with
    | .ok () => setPhase i .building s
    | .error e => finish i (.serverError e) s

def addDeny (domain : Str) (i : ι) (io : Io) (s : Server cfg ι) : Server cfg ι :=
  editList cfg.manualDenyPath (.append domain) i io s

def removeDeny (domain : Str) (i : ι) (io : Io) (s : Server cfg ι) : Server cfg ι :=
  editList cfg.manualDenyPath (.remove domain) i io s

def addAllow (domain : Str) (i : ι) (io : Io) (s : Server cfg ι) : Server cfg ι :=
  editList cfg.manualAllowPath (.append domain) i io s

def removeAllow (domain : Str) (i : ι) (io : Io) (s : Server cfg ι) : Server cfg ι :=
  editList cfg.manualAllowPath (.remove domain) i io s

/-- `reload` and the refresh task alike: one refresh at a time. -/
def reload (i : ι) (s : Server cfg ι) : Server cfg ι :=
  if s.refreshLock.isSome then finish i .conflict s
  else setPhase i (.refreshing cfg.blocking.sources 0 0) { s with refreshLock := some i }

def start (tasks : ι → Task) (i : ι) (io : Io) (s : Server cfg ι) : Server cfg ι :=
  match tasks i with
  | .addDeny domain => addDeny domain i io s
  | .removeDeny domain => removeDeny domain i io s
  | .addAllow domain => addAllow domain i io s
  | .removeAllow domain => removeAllow domain i io s
  | .reload | .refresh => reload i s

/-- The next step of a task, which does nothing while it waits for a download. -/
def advance (tasks : ι → Task) (i : ι) (io : Io) (s : Server cfg ι) : Server cfg ι :=
  match s.phase i with
  | .ready => start tasks i io s
  | .refreshing [] attempted succeeded =>
    -- `total_failure`
    if 0 < attempted ∧ succeeded = 0 then finish i (.badGateway attempted) s
    else setPhase i .building s
  | .refreshing (_ :: _) _ _ => s
  | .building => setPhase i (.built (.of cfg (io.reads s.disk))) s
  | .built fresh => setPhase i (.swapped fresh.matcher.len) { s with live := fresh }
  | .swapped len => finish i (.ok len) { s with cache := s.cache.clear }
  | .finished _ => s

/-- `refresh_sources` gets one answer. -/
def download (i : ι) (d : Download) (s : Server cfg ι) : Server cfg ι :=
  match s.phase i with
  | .refreshing (url :: urls) attempted succeeded =>
    match fetchOne (cfg.cachedListPath url) d s.disk with
    | some disk => setPhase i (.refreshing urls (attempted + 1) (succeeded + 1)) { s with disk }
    | none => setPhase i (.refreshing urls (attempted + 1) succeeded) s
  | _ => s

/-- `deadline` drops the handler of a request at any point where it waits; between the swap
and the reply it does not. -/
def deadline (tasks : ι → Task) (i : ι) (s : Server cfg ι) : Server cfg ι :=
  if tasks i = .refresh then s
  else match s.phase i with
    | .swapped _ | .finished _ => s
    | _ => finish i .timedOut s

def step (tasks : ι → Task) (a : Action ι) (s : Server cfg ι) : Server cfg ι :=
  match a with
  | .advance i io => advance tasks i io s
  | .download i d => download i d s
  | .deadline i => deadline tasks i s

/-- `main` builds the first matcher before any task starts. -/
def boot (cfg : Config) (ι : Type) (disk : Disk) (cache : Dns.Cache) : Server cfg ι :=
  ⟨disk, .of cfg disk, none, cache, fun _ => .ready⟩

/-- Every task that was started has finished. -/
def Quiescent (s : Server cfg ι) : Prop :=
  ∀ i, s.phase i = .ready ∨ ∃ outcome, s.phase i = .finished outcome

/-- Unless it is dropped, the task will install the files as they are now. -/
def Bringing (s : Server cfg ι) (i : ι) : Prop := (s.phase i).Brings s.disk

/-- The files as they are now have been installed, or will be. -/
def Converging (s : Server cfg ι) : Prop := s.live.disk = s.disk ∨ ∃ i, Bringing s i

/-- The list a task edits, and how. -/
def listEdit (cfg : Config) : Task → Option (Str × Edit)
  | .addDeny domain => some (cfg.manualDenyPath, .append domain)
  | .removeDeny domain => some (cfg.manualDenyPath, .remove domain)
  | .addAllow domain => some (cfg.manualAllowPath, .append domain)
  | .removeAllow domain => some (cfg.manualAllowPath, .remove domain)
  | .reload | .refresh => none

/-- The files after an edit, as it turned out. -/
def edited (path : Str) (edit : Edit) (io : Io) (s : Server cfg ι) : Disk :=
  Function.update s.disk path (edit.perform io.edit (s.disk path)).2

/-- The task is about to edit this list, and the file system will tear the edit. -/
structure Tears (tasks : ι → Task) (i : ι) (io : Io) (path : Str) (edit : Edit)
    (s : Server cfg ι) : Prop where
  ready : s.phase i = .ready
  task : listEdit cfg (tasks i) = some (path, edit)
  valid : isValidDomain edit.domain = true
  torn : edit.Torn io.edit (s.disk path)

/-- Without this task, these files are installed or another task will install them. -/
def Covered (i : ι) (disk : Disk) (s : Server cfg ι) : Prop :=
  s.live.disk = disk ∨ ∃ j, j ≠ i ∧ (s.phase j).Brings disk

/-- Where a task fails to bring the files, they are installed or another task is on its way:
when its edit is torn, when its build cannot read them all, when a later change of the files has
overtaken the build it swaps in, and when a request that was to install them is dropped. -/
def Permitted (tasks : ι → Task) (a : Action ι) (s : Server cfg ι) : Prop :=
  match a with
  | .advance i io =>
    match s.phase i with
    | .ready => ∀ path edit, Tears tasks i io path edit s → Covered i (edited path edit io s) s
    | .building => io.reads s.disk = s.disk ∨ Covered i s.disk s
    | .built fresh => fresh.disk = s.disk ∨ ∃ j, j ≠ i ∧ Bringing s j
    | _ => True
  | .download _ _ => True
  | .deadline i => tasks i = .refresh ∨ ¬ Bringing s i ∨ Covered i s.disk s

/-! ### A disk that works -/

omit [DecidableEq ι] in
theorem not_tears_default {tasks : ι → Task} {i : ι} {path : Str} {edit : Edit}
    {s : Server cfg ι} : ¬ Tears tasks i {} path edit s := by
  intro h
  obtain ⟨_, n, cause, hcut, _⟩ := h.torn
  cases hcut

omit [DecidableEq ι] in
/-- There, only a build that a change has overtaken needs somebody else. -/
theorem permitted_advance {tasks : ι → Task} {i : ι} {s : Server cfg ι}
    (h : ∀ fresh, s.phase i = .built fresh → fresh.disk = s.disk) :
    Permitted tasks (.advance i) s := by
  rw [Permitted]
  cases hphase : s.phase i with
  | ready => exact fun path edit htears => absurd htears not_tears_default
  | building => exact .inl (reads_default s.disk)
  | built fresh => exact .inl (h fresh hphase)
  | refreshing urls attempted succeeded => trivial
  | swapped len => trivial
  | finished outcome => trivial

/-! ### What a step leaves alone -/

@[simp] theorem disk_setPhase (i : ι) (p : Phase cfg) (s : Server cfg ι) :
    (setPhase i p s).disk = s.disk := rfl

@[simp] theorem phase_setPhase (i : ι) (p : Phase cfg) (s : Server cfg ι) :
    (setPhase i p s).phase = Function.update s.phase i p := rfl

@[simp] theorem phase_finish (i : ι) (outcome : Outcome) (s : Server cfg ι) :
    (finish i outcome s).phase = Function.update s.phase i (.finished outcome) := rfl

omit [DecidableEq ι] in
theorem bringing_congr {s s' : Server cfg ι} {i : ι} (hdisk : s'.disk = s.disk)
    (hphase : s'.phase i = s.phase i) : Bringing s' i ↔ Bringing s i := by
  rw [Bringing, Bringing, hphase, hdisk]

omit [DecidableEq ι] in
theorem not_bringing_ready {s : Server cfg ι} {i : ι} (h : s.phase i = .ready) :
    ¬ Bringing s i := by
  rw [Bringing, h]
  exact id

/-- What an action of task `i` may do when it leaves the files and the live matcher alone. -/
structure Neutral (i : ι) (s s' : Server cfg ι) : Prop where
  disk : s'.disk = s.disk
  live : s'.live = s.live
  others : ∀ j, j ≠ i → s'.phase j = s.phase j

theorem neutral_setPhase (i : ι) (p : Phase cfg) (s : Server cfg ι) :
    Neutral i s (setPhase i p s) :=
  ⟨rfl, rfl, fun _ hj => Function.update_of_ne hj _ _⟩

theorem neutral_finish (i : ι) (outcome : Outcome) (s : Server cfg ι) :
    Neutral i s (finish i outcome s) :=
  ⟨rfl, rfl, fun _ hj => Function.update_of_ne hj _ _⟩

omit [DecidableEq ι] in
theorem Neutral.bringing_iff {i j : ι} {s s' : Server cfg ι} (h : Neutral i s s') (hj : j ≠ i) :
    Bringing s' j ↔ Bringing s j := bringing_congr h.disk (h.others j hj)

/-- A neutral action matters only for what its own task was to bring. -/
theorem Neutral.converging_iff {i : ι} {s s' : Server cfg ι} (h : Neutral i s s') :
    Converging s' ↔
      s.live.disk = s.disk ∨ Bringing s' i ∨ ∃ j, j ≠ i ∧ Bringing s j := by
  rw [Converging, h.live, h.disk]
  refine or_congr_right ?_
  constructor
  · rintro ⟨j, hj⟩
    by_cases hij : j = i
    · exact .inl (hij ▸ hj)
    · exact .inr ⟨j, hij, (h.bringing_iff hij).mp hj⟩
  · rintro (hi | ⟨j, hij, hj⟩)
    · exact ⟨i, hi⟩
    · exact ⟨j, (h.bringing_iff hij).mpr hj⟩

theorem converging_cases {s : Server cfg ι} (h : Converging s) (i : ι) :
    s.live.disk = s.disk ∨ Bringing s i ∨ ∃ j, j ≠ i ∧ Bringing s j := by
  rcases h with h | ⟨j, hj⟩
  · exact .inl h
  · by_cases hij : j = i
    · exact .inr (.inl (hij ▸ hj))
    · exact .inr (.inr ⟨j, hij, hj⟩)

theorem Neutral.converging {i : ι} {s s' : Server cfg ι} (h : Neutral i s s')
    (hi : Bringing s i → Bringing s' i) (hs : Converging s) : Converging s' := by
  rw [h.converging_iff]
  rcases converging_cases hs i with hlive | hbring | hother
  · exact .inl hlive
  · exact .inr (.inl (hi hbring))
  · exact .inr (.inr hother)

/-! ### One step of a task -/

theorem bringing_building (i : ι) (s : Server cfg ι) :
    Bringing (setPhase i .building s) i := by
  rw [Bringing, phase_setPhase, Function.update_self]
  trivial

theorem not_bringing_finish (i : ι) (outcome : Outcome) (s : Server cfg ι) :
    ¬ Bringing (finish i outcome s) i := by
  rw [Bringing, phase_finish, Function.update_self]
  exact id

theorem converging_finish {i : ι} {s : Server cfg ι} (outcome : Outcome)
    (hi : ¬ Bringing s i) (hs : Converging s) : Converging (finish i outcome s) :=
  (neutral_finish i outcome s).converging (fun h => absurd h hi) hs

/-- A refused edit has left its file alone, one that is done has its task on its way, and a torn
one has changed the files behind the back of the matcher. -/
inductive Starts (tasks : ι → Task) (i : ι) (io : Io) (s : Server cfg ι) : Prop
  | refused (outcome : Outcome) (hfail : ∀ n, outcome ≠ .ok n)
      (heq : start tasks i io s = finish i outcome s)
      (hwhole : ∀ path edit, ¬ Tears tasks i io path edit s)
  | edited (path : Str) (edit : Edit) (htask : listEdit cfg (tasks i) = some (path, edit))
      (hok : (edit.perform io.edit (s.disk path)).1 = .ok ())
      (heq : start tasks i io s = setPhase i .building { s with disk := edited path edit io s })
      (hwhole : ∀ path edit, ¬ Tears tasks i io path edit s)
  | torn (path : Str) (edit : Edit) (err : ManualError)
      (htask : listEdit cfg (tasks i) = some (path, edit))
      (hvalid : isValidDomain edit.domain = true) (htorn : edit.Torn io.edit (s.disk path))
      (heq : start tasks i io s =
        finish i (.serverError err) { s with disk := edited path edit io s })
  | locked (htask : listEdit cfg (tasks i) = none)
      (heq : start tasks i io s =
        setPhase i (.refreshing cfg.blocking.sources 0 0) { s with refreshLock := some i })
      (hwhole : ∀ path edit, ¬ Tears tasks i io path edit s)

theorem starts_of_edit {tasks : ι → Task} {i : ι} {io : Io} {s : Server cfg ι} {path : Str}
    {edit : Edit} (htask : listEdit cfg (tasks i) = some (path, edit))
    (hstart : start tasks i io s = editList path edit i io s) : Starts tasks i io s := by
  -- the task edits no other list
  have hwhole : ¬ (isValidDomain edit.domain = true ∧ edit.Torn io.edit (s.disk path)) →
      ∀ path edit, ¬ Tears tasks i io path edit s := by
    intro hnot path' edit' htears
    obtain ⟨rfl, rfl⟩ := Prod.mk.inj (Option.some.inj (htask.symm.trans htears.task))
    exact hnot ⟨htears.valid, htears.torn⟩
  rw [editList] at hstart
  by_cases hdomain : isValidDomain edit.domain = true
  · rw [hdomain] at hstart
    simp only [Bool.not_true, Bool.false_eq_true, if_false] at hstart
    cases perform_ends io.edit edit (s.disk path) with
    | done hok _ hnot =>
      rw [hok] at hstart
      exact .edited path edit htask hok hstart (hwhole fun h => hnot h.2)
    | refused err herr hnot =>
      rw [herr, Function.update_eq_self] at hstart
      exact .refused (.serverError err) nofun hstart (hwhole fun h => hnot h.2)
    | torn err herr htorn =>
      rw [herr] at hstart
      exact .torn path edit err htask hdomain htorn hstart
  · have hfalse := hdomain
    rw [Bool.not_eq_true] at hfalse
    rw [hfalse] at hstart
    exact .refused (.badRequest edit.domain) nofun hstart (hwhole fun h => hdomain h.1)

/-- One refresh at a time. -/
theorem starts_of_reload {tasks : ι → Task} {i : ι} {io : Io} {s : Server cfg ι}
    (htask : listEdit cfg (tasks i) = none) (hstart : start tasks i io s = reload i s) :
    Starts tasks i io s := by
  have hwhole : ∀ path edit, ¬ Tears tasks i io path edit s := by
    intro path edit htears
    have hsome := htears.task
    rw [htask] at hsome
    cases hsome
  rw [reload] at hstart
  split at hstart
  · exact .refused .conflict nofun hstart hwhole
  · exact .locked htask hstart hwhole

theorem start_starts (tasks : ι → Task) (i : ι) (io : Io) (s : Server cfg ι) :
    Starts tasks i io s := by
  cases htask : tasks i with
  | addDeny domain => exact starts_of_edit (by rw [htask]; rfl) (by rw [start, htask]; rfl)
  | removeDeny domain => exact starts_of_edit (by rw [htask]; rfl) (by rw [start, htask]; rfl)
  | addAllow domain => exact starts_of_edit (by rw [htask]; rfl) (by rw [start, htask]; rfl)
  | removeAllow domain => exact starts_of_edit (by rw [htask]; rfl) (by rw [start, htask]; rfl)
  | reload => exact starts_of_reload (by rw [htask]; rfl) (by rw [start, htask])
  | refresh => exact starts_of_reload (by rw [htask]; rfl) (by rw [start, htask])

/-- A torn edit matters for the files that are to be installed, and for nothing else. -/
theorem converging_torn_iff (i : ι) (outcome : Outcome) (disk : Disk) (s : Server cfg ι) :
    Converging (finish i outcome { s with disk }) ↔ Covered i disk s := by
  rw [(neutral_finish i outcome { s with disk }).converging_iff,
    or_iff_right (not_bringing_finish i _ _)]
  rfl

theorem converging_start_iff (tasks : ι → Task) {i : ι} (io : Io) {s : Server cfg ι}
    (hready : s.phase i = .ready) (hs : Converging s) :
    Converging (start tasks i io s) ↔
      ∀ path edit, Tears tasks i io path edit s → Covered i (edited path edit io s) s := by
  have hi := not_bringing_ready hready
  cases start_starts tasks i io s with
  | refused outcome _ heq hwhole =>
    rw [heq]
    exact iff_of_true (converging_finish outcome hi hs) fun path edit h => absurd h (hwhole _ _)
  | edited path edit _ _ heq hwhole =>
    rw [heq]
    exact iff_of_true (.inr ⟨i, bringing_building i _⟩) fun path edit h => absurd h (hwhole _ _)
  | locked _ heq hwhole =>
    rw [heq]
    exact iff_of_true ((neutral_setPhase i _ s).converging (fun h => absurd h hi) hs)
      fun path edit h => absurd h (hwhole _ _)
  | torn path edit err htask hvalid htorn heq =>
    rw [heq, converging_torn_iff]
    constructor
    · intro hcovered path' edit' htears
      obtain ⟨rfl, rfl⟩ := Prod.mk.inj (Option.some.inj (htask.symm.trans htears.task))
      exact hcovered
    · exact fun h => h path edit ⟨hready, htask, hvalid, htorn⟩

/-- A build brings the files as they are if it has read them so. -/
theorem converging_build_iff (i : ι) (io : Io) (s : Server cfg ι) :
    Converging (setPhase i (.built (.of cfg (io.reads s.disk))) s) ↔
      io.reads s.disk = s.disk ∨ Covered i s.disk s := by
  have hbring : Bringing (setPhase i (.built (.of cfg (io.reads s.disk))) s) i ↔
      io.reads s.disk = s.disk := by
    rw [Bringing, phase_setPhase, Function.update_self]
    rfl
  rw [(neutral_setPhase i _ s).converging_iff, hbring, or_left_comm]
  rfl

/-- The swap installs the files its build has read. -/
theorem converging_swap_iff (i : ι) (fresh : Built cfg) (s : Server cfg ι) :
    Converging (setPhase i (.swapped fresh.matcher.len) { s with live := fresh }) ↔
      fresh.disk = s.disk ∨ ∃ j, j ≠ i ∧ Bringing s j := by
  have hnot : ¬ Bringing (setPhase i (.swapped fresh.matcher.len) { s with live := fresh }) i := by
    rw [Bringing, phase_setPhase, Function.update_self]
    exact id
  rw [(neutral_setPhase i _ { s with live := fresh }).converging_iff, or_iff_right hnot]
  rfl

theorem converging_advance_iff (tasks : ι → Task) (i : ι) (io : Io) {s : Server cfg ι}
    (hs : Converging s) :
    Converging (advance tasks i io s) ↔ Permitted tasks (.advance i io) s := by
  rw [advance, Permitted]
  cases hphase : s.phase i with
  | built fresh => exact converging_swap_iff i fresh s
  | ready => exact converging_start_iff tasks io hphase hs
  | refreshing urls attempted succeeded =>
    cases urls with
    | cons url urls => exact iff_true_intro hs
    | nil =>
      refine iff_true_intro ?_
      show Converging (if 0 < attempted ∧ succeeded = 0 then finish i (.badGateway attempted) s
        else setPhase i .building s)
      split
      · next hfail =>
        -- no list has been replaced, so the task had nothing to install
        refine converging_finish _ ?_ hs
        rw [Bringing, hphase]
        show ¬ 0 < succeeded
        omega
      · exact .inr ⟨i, bringing_building i s⟩
  | building => exact converging_build_iff i io s
  | swapped len =>
    have hi : ¬ Bringing s i := by
      rw [Bringing, hphase]
      exact id
    exact iff_true_intro (converging_finish _ hi hs)
  | finished outcome => exact iff_true_intro hs

theorem converging_download (i : ι) (d : Download) {s : Server cfg ι} (hs : Converging s) :
    Converging (download i d s) := by
  rw [download]
  split
  · next url urls attempted succeeded hphase =>
    split
    · next disk hdisk =>
      refine .inr ⟨i, ?_⟩
      rw [Bringing, phase_setPhase, Function.update_self]
      exact Nat.succ_pos succeeded
    · refine (neutral_setPhase i _ s).converging ?_ hs
      rw [Bringing, Bringing, hphase, phase_setPhase, Function.update_self]
      exact id
  · exact hs

theorem converging_timedOut_iff (i : ι) {s : Server cfg ι} (hs : Converging s) :
    Converging (finish i .timedOut s) ↔ ¬ Bringing s i ∨ Covered i s.disk s := by
  rw [(neutral_finish i .timedOut s).converging_iff, or_iff_right (not_bringing_finish i _ s)]
  constructor
  · exact .inr
  · rintro (hi | h)
    · exact (converging_cases hs i).imp_right fun h => h.resolve_left hi
    · exact h

theorem converging_deadline_iff (tasks : ι → Task) (i : ι) {s : Server cfg ι}
    (hs : Converging s) :
    Converging (deadline tasks i s) ↔ Permitted tasks (.deadline i) s := by
  rw [deadline, Permitted]
  by_cases hrefresh : tasks i = .refresh
  · rw [if_pos hrefresh]
    exact iff_of_true hs (.inl hrefresh)
  · rw [if_neg hrefresh, or_iff_right hrefresh]
    have hidle : ¬ Bringing s i → (Converging s ↔ ¬ Bringing s i ∨ Covered i s.disk s) :=
      fun hi => iff_of_true hs (.inl hi)
    split
    · next len hphase =>
      refine hidle ?_
      rw [Bringing, hphase]
      exact id
    · next outcome hphase =>
      refine hidle ?_
      rw [Bringing, hphase]
      exact id
    · exact converging_timedOut_iff i hs

/-- A step keeps the live matcher on its way to the files just if it is permitted. -/
theorem converging_step_iff (tasks : ι → Task) (a : Action ι) {s : Server cfg ι}
    (hs : Converging s) : Converging (step tasks a s) ↔ Permitted tasks a s := by
  cases a with
  | advance i io => exact converging_advance_iff tasks i io hs
  | download i d => exact iff_true_intro (converging_download i d hs)
  | deadline i => exact converging_deadline_iff tasks i hs

omit [DecidableEq ι] in
theorem Converging.settled {s : Server cfg ι} (h : Converging s) (hquiet : Quiescent s) :
    s.live.matcher = build cfg s.disk := by
  rcases h with hlive | ⟨i, hi⟩
  · rw [s.live.matcher_eq, hlive]
  · rw [Bringing] at hi
    rcases hquiet i with hphase | ⟨outcome, hphase⟩
    · rw [hphase] at hi
      exact hi.elim
    · rw [hphase] at hi
      exact hi.elim

end Server

end Netwatch.Api
