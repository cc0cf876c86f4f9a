import Netwatch.Api.Rebuild

/-!
# What the dashboard may rely on

A quiet server serves the matcher of its files, and a domain that was added to the deny list
is in it, as long as every step was permitted.

## Main definitions

- `NotRemoved` — the step is no removal of a domain from the deny list
- `DenyWhole` — the step tears no edit of the deny list
- `Posted` — the domain was added to the deny list with an `ok` reply, and not removed since

## Main results

- `permitted_run_converges` — after permitted runs, both hold
- `stale_swap_unblocks` — an older build swapped in last
-/

namespace Netwatch.Api.Server

open RustStd Blocklist Interleaving

variable {cfg : Config} {ι : Type} [DecidableEq ι]

/-! ### Other tasks and the deny list -/

def task : Action ι → ι
  | .advance i _ | .download i _ | .deadline i => i

theorem fetchOne_cases {path : Str} {d : Download} {disk disk' : Disk}
    (h : fetchOne path d disk = some disk') : ∃ file, disk' = Function.update disk path file := by
  cases d with
  | failed => cases h
  | body contents =>
    cases contents with
    | none => exact ⟨.garbled, (Option.some.inj h).symm⟩
    | some contents =>
      simp only [fetchOne] at h
      split at h
      · cases h
      · exact ⟨.text contents, (Option.some.inj h).symm⟩

/-- What a step may do to the disk: nothing, the edit of a task that starts, or a download. -/
inductive Writes (tasks : ι → Task) (a : Action ι) (s : Server cfg ι) (disk : Disk) : Prop
  | none (h : disk = s.disk)
  | edit (i : ι) (io : Io) (path : Str) (edit : Edit) (hact : a = .advance i io)
      (hready : s.phase i = .ready) (htask : listEdit cfg (tasks i) = some (path, edit))
      (hends : (edit.perform io.edit (s.disk path)).1 = .ok () ∨ Tears tasks i io path edit s)
      (h : disk = edited path edit io s)
  | download (url : Str) (file : ListFile)
      (h : disk = Function.update s.disk (cfg.cachedListPath url) file)

/-- A step is a step of one task. -/
theorem step_cases (tasks : ι → Task) (a : Action ι) (s : Server cfg ι) :
    (∀ j, j ≠ task a → (step tasks a s).phase j = s.phase j) ∧
      Writes tasks a s (step tasks a s).disk := by
  cases a with
  | advance i io =>
    show (∀ j, j ≠ i → (advance tasks i io s).phase j = s.phase j) ∧
      Writes tasks (.advance i io) s (advance tasks i io s).disk
    rw [advance]
    cases hphase : s.phase i with
    | ready =>
      simp only
      cases start_starts tasks i io s with
      | refused outcome _ heq _ =>
        rw [heq]
        exact ⟨fun j hj => Function.update_of_ne hj _ _, .none rfl⟩
      | edited path edit htask hok heq _ =>
        rw [heq]
        exact ⟨fun j hj => Function.update_of_ne hj _ _,
          .edit i io path edit rfl hphase htask (.inl hok) rfl⟩
      | torn path edit err htask hvalid htorn heq =>
        rw [heq]
        exact ⟨fun j hj => Function.update_of_ne hj _ _,
          .edit i io path edit rfl hphase htask (.inr ⟨hphase, htask, hvalid, htorn⟩) rfl⟩
      | locked _ heq _ =>
        rw [heq]
        exact ⟨fun j hj => Function.update_of_ne hj _ _, .none rfl⟩
    | refreshing urls attempted succeeded =>
      cases urls with
      | cons url urls => exact ⟨fun j hj => rfl, .none rfl⟩
      | nil =>
        simp only
        -- whether all downloads have failed
        split
        · exact ⟨fun j hj => Function.update_of_ne hj _ _, .none rfl⟩
        · exact ⟨fun j hj => Function.update_of_ne hj _ _, .none rfl⟩
    | building => exact ⟨fun j hj => Function.update_of_ne hj _ _, .none rfl⟩
    | built fresh => exact ⟨fun j hj => Function.update_of_ne hj _ _, .none rfl⟩
    | swapped len => exact ⟨fun j hj => Function.update_of_ne hj _ _, .none rfl⟩
    | finished outcome => exact ⟨fun j hj => rfl, .none rfl⟩
  | download i d =>
    show (∀ j, j ≠ i → (download i d s).phase j = s.phase j) ∧
      Writes tasks (.download i d) s (download i d s).disk
    rw [download]
    split
    · next url urls attempted succeeded _ =>
      split
      · next disk hdisk =>
        obtain ⟨file, hfile⟩ := fetchOne_cases hdisk
        exact ⟨fun j hj => Function.update_of_ne hj _ _, .download url file hfile⟩
      · exact ⟨fun j hj => Function.update_of_ne hj _ _, .none rfl⟩
    · exact ⟨fun j hj => rfl, .none rfl⟩
  | deadline i =>
    show (∀ j, j ≠ i → (deadline tasks i s).phase j = s.phase j) ∧
      Writes tasks (.deadline i) s (deadline tasks i s).disk
    rw [deadline]
    -- the refresh of `main` has no deadline, and a task that has swapped replies in any case
    split
    · exact ⟨fun j hj => rfl, .none rfl⟩
    · split
      · exact ⟨fun j hj => rfl, .none rfl⟩
      · exact ⟨fun j hj => rfl, .none rfl⟩
      · exact ⟨fun j hj => Function.update_of_ne hj _ _, .none rfl⟩

/-- A task that has finished stays as it is. -/
theorem finished_step (tasks : ι → Task) {j : ι} {outcome : Outcome} (a : Action ι)
    (s : Server cfg ι) (h : s.phase j = .finished outcome) :
    (step tasks a s).phase j = .finished outcome := by
  by_cases hj : j = task a
  · have hsame : step tasks a s = s := by
      subst hj
      cases a with
      | advance i io =>
        have hi : s.phase i = .finished outcome := h
        rw [step, advance, hi]
      | download i d =>
        have hi : s.phase i = .finished outcome := h
        rw [step, download, hi]
      | deadline i =>
        have hi : s.phase i = .finished outcome := h
        rw [step, deadline, hi]
        exact ite_self _
    rw [hsame, h]
  · rw [(step_cases tasks a s).1 j hj, h]

/-- No edit of the deny list is torn. -/
def DenyWhole (tasks : ι → Task) (a : Action ι) (s : Server cfg ι) : Prop :=
  ∀ i io edit, a = .advance i io → ¬ Tears tasks i io cfg.manualDenyPath edit s

/-- The only steps that touch the deny list are its own edits. -/
theorem deny_step {tasks : ι → Task} {a : Action ι} {s : Server cfg ι}
    (hwhole : DenyWhole tasks a s) :
    (step tasks a s).disk cfg.manualDenyPath = s.disk cfg.manualDenyPath ∨
    ∃ (i : ι) (io : Io) (edit : Edit), a = .advance i io ∧ s.phase i = .ready ∧
      listEdit cfg (tasks i) = some (cfg.manualDenyPath, edit) ∧
      (edit.perform io.edit (s.disk cfg.manualDenyPath)).1 = .ok () ∧
      (step tasks a s).disk cfg.manualDenyPath =
        (edit.perform io.edit (s.disk cfg.manualDenyPath)).2 := by
  cases (step_cases tasks a s).2 with
  | none h => exact .inl (congrFun h _)
  | edit i io path edit hact hready htask hends h =>
    rw [h]
    by_cases hpath : path = cfg.manualDenyPath
    · subst hpath
      have hok := hends.resolve_right (hwhole i io edit hact)
      exact .inr ⟨i, io, edit, hact, hready, htask, hok, Function.update_self _ _ _⟩
    · exact .inl (Function.update_of_ne (Ne.symm hpath) _ _)
  | download url file h =>
    rw [h]
    exact .inl (Function.update_of_ne (cfg.manualDenyPath_ne_cached url) _ _)

/-! ### A posted domain -/

/-- A removal that fails has removed nothing. -/
def NotRemoved (tasks : ι → Task) (domain : Str) (a : Action ι) (s : Server cfg ι) : Prop :=
  ∀ i io other, a = .advance i io → s.phase i = .ready → tasks i = .removeDeny other →
    ((Edit.remove other).perform io.edit (s.disk cfg.manualDenyPath)).1 = .ok () →
      manualDomain other ≠ manualDomain domain

/-- The domain was added to the deny list, the reply was `ok`, and since the edit nobody has
removed it. -/
def Posted (tasks : ι → Task) (acts : List (Action ι)) (s : Server cfg ι) (domain : Str) : Prop :=
  ∃ before i io after n, acts = before ++ .advance i io :: after ∧
    (run (step tasks) before s).phase i = .ready ∧ tasks i = .addDeny domain ∧
    (run (step tasks) acts s).phase i = .finished (.ok n) ∧
    Along (step tasks) (NotRemoved tasks domain) after
      (step tasks (.advance i io) (run (step tasks) before s))

def DenyTidy (s : Server cfg ι) : Prop := (s.disk cfg.manualDenyPath).Tidy

def DenyLists (domain : Str) (s : Server cfg ι) : Prop :=
  manualDomain domain ∈ Str.listed (s.disk cfg.manualDenyPath).contents

theorem denyTidy_step {tasks : ι → Task} {a : Action ι} {s : Server cfg ι}
    (hwhole : DenyWhole tasks a s) (h : DenyTidy s) : DenyTidy (step tasks a s) := by
  rw [DenyTidy] at h ⊢
  rcases deny_step hwhole with hsame | ⟨i, io, edit, _, _, _, hok, hedit⟩
  · rwa [hsame]
  · rw [hedit]
    exact (Tidy.perform h hok).1

omit [DecidableEq ι] in
theorem removeDeny_of_listEdit {t : Task} {other : Str}
    (h : listEdit cfg t = some (cfg.manualDenyPath, .remove other)) : t = .removeDeny other := by
  have hne := cfg.manualDenyPath_ne_allow
  cases t with
  | removeDeny domain =>
    obtain ⟨_, hedit⟩ := Prod.mk.inj (Option.some.inj h)
    rw [Edit.remove.inj hedit]
  | addDeny domain =>
    obtain ⟨_, hedit⟩ := Prod.mk.inj (Option.some.inj h)
    cases hedit
  | addAllow domain => exact absurd (Prod.mk.inj (Option.some.inj h)).1.symm hne
  | removeAllow domain => exact absurd (Prod.mk.inj (Option.some.inj h)).1.symm hne
  | reload => cases h
  | refresh => cases h

theorem denyLists_step {tasks : ι → Task} (domain : Str) {a : Action ι} {s : Server cfg ι}
    (hwhole : DenyWhole tasks a s) (hkeep : NotRemoved tasks domain a s)
    (h : DenyTidy s ∧ DenyLists domain s) :
    DenyTidy (step tasks a s) ∧ DenyLists domain (step tasks a s) := by
  refine ⟨denyTidy_step hwhole h.1, ?_⟩
  obtain ⟨htidy, hlists⟩ := h
  rw [DenyLists] at hlists ⊢
  rcases deny_step hwhole with hsame | ⟨i, io, edit, hact, hready, htask, hok, hedit⟩
  · rwa [hsame]
  · rw [hedit]
    rcases (Tidy.perform htidy hok).2 with hlisted | ⟨hunread, _⟩
    · rw [hlisted]
      cases edit with
      | append other => exact Set.mem_insert_of_mem _ hlists
      | remove other =>
        have hne := hkeep i io other hact hready (removeDeny_of_listEdit htask) hok
        exact ⟨hlists, fun heq => hne (Set.mem_singleton_iff.mp heq).symm⟩
    · rwa [hunread]

/-- Unless the start of a task fails for good, its edit is done. -/
theorem denyLists_start {tasks : ι → Task} {i : ι} (io : Io) {s : Server cfg ι} {domain : Str}
    (hready : s.phase i = .ready) (htask : tasks i = .addDeny domain) (htidy : DenyTidy s) :
    (∃ outcome, (∀ n, outcome ≠ .ok n) ∧
      (step tasks (.advance i io) s).phase i = .finished outcome) ∨
    DenyLists domain (step tasks (.advance i io) s) := by
  have hstep : step tasks (.advance i io) s = start tasks i io s := by
    rw [step, advance, hready]
  rw [hstep]
  cases start_starts tasks i io s with
  | refused outcome hfail heq _ =>
    rw [heq, phase_finish, Function.update_self]
    exact .inl ⟨outcome, hfail, rfl⟩
  | torn path edit err _ _ _ heq =>
    rw [heq, phase_finish, Function.update_self]
    refine .inl ⟨.serverError err, ?_, rfl⟩
    intro n hok
    cases hok
  | edited path edit hedit hok heq _ =>
    rw [htask] at hedit
    obtain ⟨rfl, rfl⟩ := Prod.mk.inj (Option.some.inj hedit)
    right
    rw [DenyLists, heq, disk_setPhase]
    show manualDomain domain ∈ Str.listed (edited _ _ io s cfg.manualDenyPath).contents
    rw [edited, Function.update_self]
    rcases (Tidy.perform htidy hok).2 with hlisted | ⟨_, other, hother⟩
    · rw [hlisted]
      exact Set.mem_insert _ _
    · cases hother
  | locked hnone =>
    rw [htask] at hnone
    cases hnone

theorem denyLists_of_posted {tasks : ι → Task} {acts : List (Action ι)} {s : Server cfg ι}
    {domain : Str} (htidy : DenyTidy s) (hwhole : Along (step tasks) (DenyWhole tasks) acts s)
    (h : Posted tasks acts s domain) : DenyLists domain (run (step tasks) acts s) := by
  obtain ⟨before, i, io, after, n, rfl, hready, htask, hok, hkeep⟩ := h
  obtain ⟨hwholeBefore, hwholeStep, hwholeAfter⟩ := along_append.mp hwhole
  have hbefore : DenyTidy (run (step tasks) before s) :=
    hwholeBefore.invariant (fun _ _ => denyTidy_step) htidy
  rw [run_append, run_cons] at hok ⊢
  generalize run (step tasks) before s = t at *
  rcases denyLists_start io hready htask hbefore with ⟨outcome, hfail, hdone⟩ | hlists
  · -- the reply of a failed start stays
    have hlast : (run (step tasks) after (step tasks (.advance i io) t)).phase i =
        .finished outcome :=
      run_invariant (finished_step tasks) after hdone
    rw [hok] at hlast
    exact absurd (Phase.finished.inj hlast).symm (hfail n)
  · have hboth : Along (step tasks) (fun a s => DenyWhole tasks a s ∧ NotRemoved tasks domain a s)
        after (step tasks (.advance i io) t) := hwholeAfter.and hkeep
    have hkept : DenyTidy (run (step tasks) after (step tasks (.advance i io) t)) ∧
        DenyLists domain (run (step tasks) after (step tasks (.advance i io) t)) :=
      hboth.invariant (fun _ _ h => denyLists_step domain h.1 h.2)
        ⟨denyTidy_step hwholeStep hbefore, hlists⟩
    exact hkept.2

/-! ### Runs from the start of the server -/

section

variable (tasks : ι → Task) (acts : List (Action ι)) (disk : Disk) (cache : Dns.Cache)

/-- Once every task of a permitted run has finished, the live matcher is that of the files on
disk, and it blocks what was posted, if no edit of the deny list was torn. -/
theorem permitted_run_converges
    (hrun : Along (step tasks) (Permitted tasks) acts (boot cfg ι disk cache))
    (hquiet : Quiescent (run (step tasks) acts (boot cfg ι disk cache))) :
    (run (step tasks) acts (boot cfg ι disk cache)).live.matcher =
        build cfg (run (step tasks) acts (boot cfg ι disk cache)).disk ∧
      ∀ domain e, Posted tasks acts (boot cfg ι disk cache) domain →
        normalize domain = some e → manualDomain domain ≠ "0.0.0.0.0".toList →
        cfg.blocking.enabled = true → (disk cfg.manualDenyPath).Tidy →
        Along (step tasks) (DenyWhole tasks) acts (boot cfg ι disk cache) → ∀ d, e.Covers d →
          (run (step tasks) acts (boot cfg ι disk cache)).live.matcher.isAllowed d = true ∨
          ((run (step tasks) acts (boot cfg ι disk cache)).live.matcher.lookup d).isSome =
            true := by
  have hconv : Converging (run (step tasks) acts (boot cfg ι disk cache)) :=
    hrun.invariant (fun a s hperm hs => (converging_step_iff tasks a hs).mpr hperm) (.inl rfl)
  have hlive := hconv.settled hquiet
  refine ⟨hlive, ?_⟩
  intro domain e hposted hnorm hhosts henabled htidy hwhole d hcovers
  have hlists := denyLists_of_posted (s := boot cfg ι disk cache) htidy hwhole hposted
  rw [hlive]
  exact lookup_build_of_deny henabled (mem_rules_of_listed hlists hnorm hhosts) hcovers

end

/-! ### Two requests that overlap -/

def localConfig : Config := { blocking := { sources := [] } }

def bareDisk : Disk := fun _ => .missing

def emptyCache : Dns.Cache := .new 20000 30 86400

def twoPosts : Bool → Task
  | false => .addDeny "a.example.com".toList
  | true => .addDeny "b.example.com".toList

def bootLocal : Server localConfig Bool := boot localConfig Bool bareDisk emptyCache

/-- The second request edits, builds and swaps between the build and the swap of the first. -/
def staleActs : List (Action Bool) :=
  [.advance false, .advance false, .advance true, .advance true, .advance true, .advance true,
    .advance false, .advance false]

theorem notRemoved_twoPosts (domain : Str) (a : Action Bool) (s : Server localConfig Bool) :
    NotRemoved twoPosts domain a s := by
  intro i io other _ _ htask _
  cases i <;> cases htask

/-- Both requests were answered with `ok`, and the second domain is not blocked. -/
theorem stale_swap_unblocks :
    Quiescent (run (step twoPosts) staleActs bootLocal) ∧
    Posted twoPosts staleActs bootLocal "b.example.com".toList ∧
    (run (step twoPosts) staleActs bootLocal).live.matcher ≠
      build localConfig (run (step twoPosts) staleActs bootLocal).disk ∧
    (run (step twoPosts) staleActs bootLocal).live.matcher.isAllowed
      "b.example.com".toList = false ∧
    (run (step twoPosts) staleActs bootLocal).live.matcher.lookup
      "b.example.com".toList = none := by
  have hfirst : (run (step twoPosts) staleActs bootLocal).phase false = .finished (.ok 1) := rfl
  have hsecond : (run (step twoPosts) staleActs bootLocal).phase true = .finished (.ok 2) := rfl
  have hmissed : (run (step twoPosts) staleActs bootLocal).live.matcher.lookup
      "b.example.com".toList = none := by decide
  have hwanted : (build localConfig (run (step twoPosts) staleActs bootLocal).disk).lookup
      "b.example.com".toList = some "deny.list".toList := by decide
  refine ⟨?_, ?_, ?_, by decide, hmissed⟩
  · intro i
    cases i with
    | false => exact .inr ⟨_, hfirst⟩
    | true => exact .inr ⟨_, hsecond⟩
  · exact ⟨[.advance false, .advance false], true, {},
      [.advance true, .advance true, .advance true, .advance false, .advance false], 2, rfl, rfl,
      rfl, hsecond, along_of_forall (notRemoved_twoPosts _) _ _⟩
  · intro heq
    rw [heq, hwanted] at hmissed
    cases hmissed

/-- Both edits come before both builds. -/
def orderedActs : List (Action Bool) :=
  [.advance false, .advance true, .advance false, .advance true, .advance true, .advance false,
    .advance true, .advance false]

theorem along_orderedActs : Along (step twoPosts) (Permitted twoPosts) orderedActs bootLocal := by
  refine ⟨?_, ?_, ?_, ?_, ?_, ?_, ?_, ?_, trivial⟩
  all_goals
    refine permitted_advance fun fresh hbuilt => ?_
    cases hbuilt
  -- both builds have read what is on disk when they are swapped in
  · rfl
  · rfl

theorem denyWhole_orderedActs :
    Along (step twoPosts) (DenyWhole twoPosts) orderedActs bootLocal := by
  refine ⟨?_, ?_, ?_, ?_, ?_, ?_, ?_, ?_, trivial⟩
  all_goals
    intro i io edit hact
    cases hact
    exact not_tears_default

theorem permitted_run_converges_ordered :
    (run (step twoPosts) orderedActs bootLocal).live.matcher =
        build localConfig (run (step twoPosts) orderedActs bootLocal).disk ∧
      ((run (step twoPosts) orderedActs bootLocal).live.matcher.isAllowed
          "b.example.com".toList = true ∨
        ((run (step twoPosts) orderedActs bootLocal).live.matcher.lookup
          "b.example.com".toList).isSome = true) := by
  have hquiet : Quiescent (run (step twoPosts) orderedActs bootLocal) := by
    intro i
    cases i with
    | false => exact .inr ⟨.ok 2, rfl⟩
    | true => exact .inr ⟨.ok 2, rfl⟩
  have hposted : Posted twoPosts orderedActs bootLocal "b.example.com".toList :=
    ⟨[.advance false], true, {}, [.advance false, .advance true, .advance true, .advance false,
      .advance true, .advance false], 2, rfl, rfl, rfl, rfl,
      along_of_forall (notRemoved_twoPosts _) _ _⟩
  obtain ⟨hlive, hblocks⟩ :=
    permitted_run_converges twoPosts orderedActs bareDisk emptyCache along_orderedActs hquiet
  exact ⟨hlive, hblocks _ (.exact "b.example.com".toList) hposted (by decide) (by decide)
    (by decide) (.inl rfl) denyWhole_orderedActs _ rfl⟩

end Netwatch.Api.Server
