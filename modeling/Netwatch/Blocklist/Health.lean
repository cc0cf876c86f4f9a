import Netwatch.Blocklist.Fetch
import Netwatch.Interleaving.Run

/-!
# The health of the sources

`refresh_sources` of `blocklist.rs` downloads every configured list and writes down how each
source is doing. The two early exits report their failures to the caller only, and an entry is
found by its URL, so that the second entry of a repeated URL is never written.

## Main definitions

- `Refresh` — one refresh: what its surroundings answer
- `refreshSources` — its outcome, the health entries and the files after it
- `Truthful` — what the entries should say after a refresh

## Main results

- `truthful_iff` — they say it exactly when there is no early exit and no repeated URL
-/

namespace Netwatch.Blocklist

open RustStd Interleaving

inductive SourceState
  | neverFetched
  | ok
  | stale
  | error
  deriving DecidableEq

structure SourceHealth where
  url : Str
  /-- Unix seconds of the last attempt, successful or not. -/
  lastAttempt : Option ℤ
  lastSuccess : Option ℤ
  bytes : Option ℕ
  state : SourceState
  error : Option Str
  deriving DecidableEq

def SourceHealth.new (url : Str) : SourceHealth := ⟨url, none, none, none, .neverFetched, none⟩

def newHealth (cfg : Config) : List SourceHealth := cfg.blocking.sources.map SourceHealth.new

/-- The first entry with the URL is the one that is changed. -/
def setHealth (url : Str) (f : SourceHealth → SourceHealth) : List SourceHealth → List SourceHealth
  | [] => []
  | entry :: health =>
    if entry.url = url then f entry :: health else entry :: setHealth url f health

structure RefreshOutcome where
  attempted : ℕ := 0
  succeeded : ℕ := 0
  /-- Each source that failed, with the reason. -/
  failures : List (Str × Str) := []

/-- One turn of the loop: the clock, and the download. -/
structure Attempt where
  now : ℤ
  fetch : Fetch

structure Refresh where
  dirCreated : Bool
  clientBuilt : Bool
  /-- By the place of the source in the configuration. -/
  attempts : ℕ → Attempt
  /-- The files as the refresh finds them. -/
  files : FileSystem

structure Refreshing where
  outcome : RefreshOutcome
  health : List SourceHealth
  files : FileSystem

/-- Every source fails for the same reason. -/
def RefreshOutcome.allFailed (sources : List Str) (reason : Str) : RefreshOutcome :=
  { attempted := sources.length, failures := sources.map fun url => (url, reason) }

/-- The body of the loop. -/
def refreshSource (cfg : Config) (s : Refreshing) (turn : Str × Attempt) : Refreshing :=
  let (url, attempt) := turn
  let outcome := { s.outcome with attempted := s.outcome.attempted + 1 }
  let health := setHealth url (fun h => { h with lastAttempt := some attempt.now }) s.health
  match fetchOne attempt.fetch (cfg.cachedListPath url) s.files with
  | (.ok bytes, files) =>
    ⟨{ outcome with succeeded := outcome.succeeded + 1 },
      setHealth url (fun h => { h with
        lastSuccess := some attempt.now, bytes := some bytes, state := .ok, error := none }) health,
      files⟩
  | (.error reason, files) =>
    ⟨{ outcome with failures := outcome.failures ++ [(url, reason)] },
      setHealth url (fun h => { h with
        state := if h.lastSuccess.isSome then .stale else .error, error := some reason }) health,
      files⟩

def Refresh.turns (cfg : Config) (r : Refresh) : List (Str × Attempt) :=
  cfg.blocking.sources.mapIdx fun i url => (url, r.attempts i)

def refreshSources (cfg : Config) (r : Refresh) (health : List SourceHealth) : Refreshing :=
  if !r.dirCreated then
    ⟨.allFailed cfg.blocking.sources "list directory is not writable".toList, health, r.files⟩
  else if !r.clientBuilt then
    ⟨.allFailed cfg.blocking.sources "HTTP client unavailable".toList, health, r.files⟩
  else (r.turns cfg).foldl (refreshSource cfg) ⟨{}, health, r.files⟩

/-- The entries after some refreshes. One runs at a time. -/
def refreshed (cfg : Config) (earlier : List Refresh) : List SourceHealth :=
  run (fun r health => (refreshSources cfg r health).health) earlier (newHealth cfg)

/-! ### What a refresh should leave -/

/-- The downloads that were tried. -/
def Refresh.tried (cfg : Config) (r : Refresh) : List (Str × Attempt) :=
  if r.dirCreated && r.clientBuilt then r.turns cfg else []

def Refresh.Succeeded (cfg : Config) (r : Refresh) (url : Str) : Prop :=
  ∃ attempt, (url, attempt) ∈ r.tried cfg ∧ ∃ bytes, attempt.fetch.result = .ok bytes

/-- After some earlier refreshes and this one. -/
structure Truthful (cfg : Config) (earlier : List Refresh) (r : Refresh)
    (outcome : RefreshOutcome) (health : List SourceHealth) : Prop where
  attempted : outcome.attempted = cfg.blocking.sources.length
  counted : outcome.succeeded + outcome.failures.length = cfg.blocking.sources.length
  failed : ∀ entry ∈ health, ∀ reason, (entry.url, reason) ∈ outcome.failures →
    ((∃ r ∈ earlier, r.Succeeded cfg entry.url) → entry.state = .stale) ∧
      ((¬ ∃ r ∈ earlier, r.Succeeded cfg entry.url) → entry.state = .error) ∧
        ∃ reason, (entry.url, reason) ∈ outcome.failures ∧ entry.error = some reason
  succeeded : ∀ entry ∈ health, r.Succeeded cfg entry.url → entry.state = .ok ∧ entry.error = none
  recorded : ∀ url ∈ cfg.blocking.sources, ∃ entry ∈ health, entry.url = url
  attempts : ∀ entry ∈ health, ∃ attempt, (entry.url, attempt) ∈ r.tried cfg ∧
    entry.lastAttempt = some attempt.now ∧ entry.state ≠ .neverFetched

/-! ### One entry -/

variable {url : Str} {f g : SourceHealth → SourceHealth}

theorem setHealth_setHealth (hf : ∀ h, (f h).url = h.url) (health : List SourceHealth) :
    setHealth url g (setHealth url f health) = setHealth url (fun h => g (f h)) health := by
  induction health with
  | nil => rfl
  | cons entry health ih =>
    by_cases h : entry.url = url
    · simp only [setHealth, h, hf, if_true]
    · simp only [setHealth, h, if_false, ih]

theorem map_url_setHealth (hf : ∀ h, (f h).url = h.url) (health : List SourceHealth) :
    (setHealth url f health).map SourceHealth.url = health.map SourceHealth.url := by
  induction health with
  | nil => rfl
  | cons entry health ih =>
    rw [setHealth]
    split
    · rw [List.map_cons, List.map_cons, hf]
    · rw [List.map_cons, List.map_cons, ih]

def entryOf (url : Str) (health : List SourceHealth) : Option SourceHealth :=
  health.find? (·.url = url)

theorem entryOf_setHealth_self (hf : ∀ h, (f h).url = h.url) (health : List SourceHealth) :
    entryOf url (setHealth url f health) = (entryOf url health).map f := by
  rw [entryOf, entryOf]
  induction health with
  | nil => rfl
  | cons entry health ih =>
    by_cases h : entry.url = url
    · simp [setHealth, h, hf]
    · simpa [setHealth, h] using ih

theorem entryOf_setHealth_of_ne {other : Str} (hf : ∀ h, (f h).url = h.url) (hne : other ≠ url)
    (health : List SourceHealth) :
    entryOf other (setHealth url f health) = entryOf other health := by
  rw [entryOf, entryOf]
  induction health with
  | nil => rfl
  | cons entry health ih =>
    by_cases h : entry.url = url
    · simp [setHealth, h, hf, hne.symm]
    · by_cases hother : entry.url = other
      · simp [setHealth, hother, hne]
      · simpa [setHealth, h, hother] using ih

theorem mem_setHealth {entry : SourceHealth} {health : List SourceHealth}
    (h : entry ∈ setHealth url f health) :
    entry ∈ health ∨ ∃ old ∈ health, old.url = url ∧ entry = f old := by
  induction health with
  | nil => cases h
  | cons first health ih =>
    rw [setHealth] at h
    split at h
    · next hurl =>
      rcases List.mem_cons.mp h with rfl | h
      · exact .inr ⟨first, List.mem_cons_self, hurl, rfl⟩
      · exact .inl (List.mem_cons_of_mem first h)
    · rcases List.mem_cons.mp h with rfl | h
      · exact .inl List.mem_cons_self
      · obtain h | ⟨old, hold, hf⟩ := ih h
        · exact .inl (List.mem_cons_of_mem first h)
        · exact .inr ⟨old, List.mem_cons_of_mem first hold, hf⟩

/-- Of the entries with one URL, all but the first are as they were made. -/
def LaterUntouched (health : List SourceHealth) : Prop :=
  health.Pairwise fun a b => a.url = b.url → b = .new b.url

theorem laterUntouched_setHealth {health : List SourceHealth} (hf : ∀ h, (f h).url = h.url)
    (h : LaterUntouched health) : LaterUntouched (setHealth url f health) := by
  induction health with
  | nil => exact h
  | cons first health ih =>
    obtain ⟨hfirst, hrest⟩ := List.pairwise_cons.mp h
    rw [setHealth]
    split
    · refine List.Pairwise.cons (fun entry hin => ?_) hrest
      rw [hf]
      exact hfirst entry hin
    · next hne =>
      refine List.Pairwise.cons (fun entry hin heq => ?_) (ih hrest)
      obtain hin | ⟨old, -, hurl, rfl⟩ := mem_setHealth hin
      · exact hfirst entry hin heq
      · rw [hf, hurl] at heq
        exact absurd heq hne

/-! ### One turn -/

/-- What a turn does to the entry of its source. -/
def SourceHealth.after (attempt : Attempt) (h : SourceHealth) : SourceHealth :=
  match attempt.fetch.result with
  | .ok bytes => { h with
      lastAttempt := some attempt.now, lastSuccess := some attempt.now, bytes := some bytes
      state := .ok, error := none }
  | .error reason => { h with
      lastAttempt := some attempt.now
      state := if h.lastSuccess.isSome then .stale else .error, error := some reason }

/-- What some turns do to the entries. -/
def takeTurns : List (Str × Attempt) → List SourceHealth → List SourceHealth
  | [], health => health
  | turn :: turns, health => takeTurns turns (setHealth turn.1 (·.after turn.2) health)

theorem url_after (attempt : Attempt) (h : SourceHealth) : (h.after attempt).url = h.url := by
  rw [SourceHealth.after]
  cases attempt.fetch.result <;> rfl

/-- What a turn does to the outcome. -/
def RefreshOutcome.after (url : Str) (result : Except Str ℕ) (outcome : RefreshOutcome) :
    RefreshOutcome :=
  match result with
  | .ok _ => ⟨outcome.attempted + 1, outcome.succeeded + 1, outcome.failures⟩
  | .error reason => ⟨outcome.attempted + 1, outcome.succeeded, outcome.failures ++ [(url, reason)]⟩

theorem refreshSource_eq (cfg : Config) (s : Refreshing) (url : Str) (attempt : Attempt) :
    refreshSource cfg s (url, attempt) =
      ⟨s.outcome.after url attempt.fetch.result, setHealth url (·.after attempt) s.health,
        (fetchOne attempt.fetch (cfg.cachedListPath url) s.files).2⟩ := by
  rw [refreshSource]
  simp only [SourceHealth.after, ← fetchOne_fst attempt.fetch (cfg.cachedListPath url) s.files]
  rcases fetchOne attempt.fetch (cfg.cachedListPath url) s.files with ⟨result, files⟩
  cases result with
  | ok bytes =>
    dsimp only
    rw [setHealth_setHealth]
    · rfl
    · exact fun _ => rfl
  | error reason =>
    dsimp only
    rw [setHealth_setHealth]
    · rfl
    · exact fun _ => rfl

/-! ### The loop -/

theorem health_foldl (cfg : Config) (turns : List (Str × Attempt)) (s : Refreshing) :
    (turns.foldl (refreshSource cfg) s).health = takeTurns turns s.health := by
  induction turns generalizing s with
  | nil => rfl
  | cons turn turns ih => rw [List.foldl_cons, ih, refreshSource_eq, takeTurns]

theorem attempted_foldl (cfg : Config) (turns : List (Str × Attempt)) (s : Refreshing) :
    (turns.foldl (refreshSource cfg) s).outcome.attempted =
      s.outcome.attempted + turns.length := by
  induction turns generalizing s with
  | nil => rfl
  | cons turn turns ih =>
    have hone : (s.outcome.after turn.1 turn.2.fetch.result).attempted =
        s.outcome.attempted + 1 := by
      cases turn.2.fetch.result <;> rfl
    rw [List.foldl_cons, ih, refreshSource_eq, List.length_cons]
    dsimp only
    omega

theorem counted_foldl (cfg : Config) (turns : List (Str × Attempt)) (s : Refreshing) :
    (turns.foldl (refreshSource cfg) s).outcome.succeeded +
        (turns.foldl (refreshSource cfg) s).outcome.failures.length =
      s.outcome.succeeded + s.outcome.failures.length + turns.length := by
  induction turns generalizing s with
  | nil => rfl
  | cons turn turns ih =>
    have hone : (s.outcome.after turn.1 turn.2.fetch.result).succeeded +
        (s.outcome.after turn.1 turn.2.fetch.result).failures.length =
          s.outcome.succeeded + s.outcome.failures.length + 1 := by
      cases turn.2.fetch.result with
      | ok bytes => exact Nat.add_right_comm _ _ _
      | error reason =>
        show _ + (s.outcome.failures ++ [(turn.1, reason)]).length = _
        rw [List.length_append]
        rfl
    rw [List.foldl_cons, ih, refreshSource_eq, List.length_cons]
    dsimp only
    omega

theorem mem_failures_after {other reason : Str} {result : Except Str ℕ}
    {outcome : RefreshOutcome} : (url, reason) ∈ (outcome.after other result).failures ↔
      (url, reason) ∈ outcome.failures ∨ url = other ∧ result = .error reason := by
  cases result with
  | ok bytes => simp [RefreshOutcome.after]
  | error reason' => simp [RefreshOutcome.after, eq_comm]

theorem mem_failures_foldl {cfg : Config} {turns : List (Str × Attempt)} {s : Refreshing}
    {reason : Str} : (url, reason) ∈ (turns.foldl (refreshSource cfg) s).outcome.failures ↔
      (url, reason) ∈ s.outcome.failures ∨
        ∃ attempt, (url, attempt) ∈ turns ∧ attempt.fetch.result = .error reason := by
  induction turns generalizing s with
  | nil => simp
  | cons turn turns ih =>
    rw [List.foldl_cons, ih, refreshSource_eq, mem_failures_after, or_assoc]
    refine or_congr_right ⟨?_, ?_⟩
    · rintro (⟨rfl, hresult⟩ | ⟨attempt, hin, hresult⟩)
      · exact ⟨turn.2, List.mem_cons_self, hresult⟩
      · exact ⟨attempt, List.mem_cons_of_mem _ hin, hresult⟩
    · rintro ⟨attempt, hin, hresult⟩
      rcases List.mem_cons.mp hin with rfl | hin
      · exact .inl ⟨rfl, hresult⟩
      · exact .inr ⟨attempt, hin, hresult⟩

theorem entryOf_takeTurns_of_notMem {turns : List (Str × Attempt)} (h : url ∉ turns.map Prod.fst)
    (health : List SourceHealth) : entryOf url (takeTurns turns health) = entryOf url health := by
  induction turns generalizing health with
  | nil => rfl
  | cons turn turns ih =>
    rw [List.map_cons, List.mem_cons, not_or] at h
    rw [takeTurns, ih h.2, entryOf_setHealth_of_ne (url_after turn.2) h.1]

theorem entryOf_takeTurns_of_mem {turns : List (Str × Attempt)}
    (hnodup : (turns.map Prod.fst).Nodup) {attempt : Attempt} (h : (url, attempt) ∈ turns)
    (health : List SourceHealth) :
    entryOf url (takeTurns turns health) = (entryOf url health).map (·.after attempt) := by
  induction turns generalizing health with
  | nil => cases h
  | cons turn turns ih =>
    rw [List.map_cons, List.nodup_cons] at hnodup
    rw [takeTurns]
    rcases List.mem_cons.mp h with rfl | hin
    · rw [entryOf_takeTurns_of_notMem hnodup.1, entryOf_setHealth_self (url_after attempt)]
    · have hne : url ≠ turn.1 := by
        rintro rfl
        exact hnodup.1 (List.mem_map.mpr ⟨_, hin, rfl⟩)
      rw [ih hnodup.2 hin, entryOf_setHealth_of_ne (url_after turn.2) hne]

/-! ### Whole refreshes -/

theorem map_fst_turns (cfg : Config) (r : Refresh) :
    (r.turns cfg).map Prod.fst = cfg.blocking.sources := by
  rw [Refresh.turns, List.mapIdx_eq_zipIdx_map, List.map_map]
  exact List.zipIdx_map_fst 0 _

theorem nodup_tried {cfg : Config} (h : cfg.blocking.sources.Nodup) (r : Refresh) :
    ((r.tried cfg).map Prod.fst).Nodup := by
  rw [Refresh.tried]
  split
  · rw [map_fst_turns]
    exact h
  · exact List.nodup_nil

theorem health_refreshSources (cfg : Config) (r : Refresh) (health : List SourceHealth) :
    (refreshSources cfg r health).health = takeTurns (r.tried cfg) health := by
  rw [refreshSources, Refresh.tried]
  cases hdir : r.dirCreated with
  | false => rfl
  | true =>
    cases hclient : r.clientBuilt with
    | false => rfl
    | true => exact health_foldl cfg (r.turns cfg) _

theorem entryOf_refreshSources {cfg : Config} (hnodup : cfg.blocking.sources.Nodup) {r : Refresh}
    {attempt : Attempt} (h : (url, attempt) ∈ r.tried cfg) (health : List SourceHealth) :
    entryOf url (refreshSources cfg r health).health =
      (entryOf url health).map (·.after attempt) := by
  rw [health_refreshSources, entryOf_takeTurns_of_mem (nodup_tried hnodup r) h]

theorem map_url_takeTurns (turns : List (Str × Attempt)) (health : List SourceHealth) :
    (takeTurns turns health).map SourceHealth.url = health.map SourceHealth.url := by
  induction turns generalizing health with
  | nil => rfl
  | cons turn turns ih => rw [takeTurns, ih, map_url_setHealth (url_after turn.2)]

/-- There is an entry for every configured source, in their order. -/
theorem map_url_refreshed (cfg : Config) (earlier : List Refresh) :
    (refreshed cfg earlier).map SourceHealth.url = cfg.blocking.sources := by
  refine run_invariant (I := fun health : List SourceHealth =>
    health.map SourceHealth.url = cfg.blocking.sources) (fun r health h => ?_) earlier ?_
  · rw [health_refreshSources, map_url_takeTurns, h]
  · rw [newHealth, List.map_map]
    exact List.map_id _

theorem laterUntouched_takeTurns {health : List SourceHealth} (h : LaterUntouched health)
    (turns : List (Str × Attempt)) : LaterUntouched (takeTurns turns health) := by
  induction turns generalizing health with
  | nil => exact h
  | cons turn turns ih => exact ih (laterUntouched_setHealth (url_after turn.2) h)

theorem laterUntouched_refreshed (cfg : Config) (earlier : List Refresh) :
    LaterUntouched (refreshed cfg earlier) := by
  refine run_invariant (fun r health h => ?_) earlier ?_
  · rw [health_refreshSources]
    exact laterUntouched_takeTurns h (r.tried cfg)
  · rw [LaterUntouched, newHealth, List.pairwise_map]
    exact List.pairwise_of_forall fun _ _ _ => rfl

/-! ### The history of a source -/

theorem attempt_unique {cfg : Config} (hnodup : cfg.blocking.sources.Nodup) {r : Refresh}
    {a b : Attempt} (ha : (url, a) ∈ r.tried cfg) (hb : (url, b) ∈ r.tried cfg) : a = b :=
  (Prod.mk.inj (List.inj_on_of_nodup_map (nodup_tried hnodup r) ha hb rfl)).2

theorem isSome_lastSuccess_after (attempt : Attempt) (h : SourceHealth) :
    (h.after attempt).lastSuccess.isSome = true ↔
      h.lastSuccess.isSome = true ∨ ∃ bytes, attempt.fetch.result = .ok bytes := by
  rw [SourceHealth.after]
  cases hresult : attempt.fetch.result with
  | ok bytes => simp
  | error reason => simp

theorem lastSuccess_refreshSources {cfg : Config} (hnodup : cfg.blocking.sources.Nodup)
    (r : Refresh) {health : List SourceHealth} {entry : SourceHealth}
    (hentry : entryOf url health = some entry) :
    ∃ entry', entryOf url (refreshSources cfg r health).health = some entry' ∧
      (entry'.lastSuccess.isSome = true ↔
        entry.lastSuccess.isSome = true ∨ r.Succeeded cfg url) := by
  by_cases htried : url ∈ (r.tried cfg).map Prod.fst
  · obtain ⟨⟨_, attempt⟩, hin, rfl⟩ := List.mem_map.mp htried
    refine ⟨entry.after attempt, ?_, ?_⟩
    · rw [entryOf_refreshSources hnodup hin, hentry]
      rfl
    · rw [isSome_lastSuccess_after]
      refine or_congr_right ⟨fun hok => ⟨attempt, hin, hok⟩, ?_⟩
      rintro ⟨attempt', hin', hok⟩
      rwa [attempt_unique hnodup hin hin']
  · refine ⟨entry, ?_, ?_⟩
    · rw [health_refreshSources, entryOf_takeTurns_of_notMem htried, hentry]
    · refine ⟨.inl, ?_⟩
      rintro (h | ⟨attempt, hin, -⟩)
      · exact h
      · exact absurd (List.mem_map.mpr ⟨_, hin, rfl⟩) htried

theorem lastSuccess_run {cfg : Config} (hnodup : cfg.blocking.sources.Nodup)
    (earlier : List Refresh) {health : List SourceHealth} {entry : SourceHealth}
    (hentry : entryOf url health = some entry) :
    ∃ entry', entryOf url
        (run (fun r health => (refreshSources cfg r health).health) earlier health) = some entry' ∧
      (entry'.lastSuccess.isSome = true ↔
        entry.lastSuccess.isSome = true ∨ ∃ r ∈ earlier, r.Succeeded cfg url) := by
  induction earlier generalizing health entry with
  | nil => exact ⟨entry, hentry, by simp⟩
  | cons r earlier ih =>
    obtain ⟨middle, hmiddle, hr⟩ := lastSuccess_refreshSources hnodup r hentry
    obtain ⟨last, hlast, hrest⟩ := ih hmiddle
    refine ⟨last, hlast, ?_⟩
    rw [hrest, hr]
    simp only [List.mem_cons, exists_eq_or_imp, or_assoc]

/-- An entry remembers a success just if there was one. -/
theorem lastSuccess_refreshed {cfg : Config} (hnodup : cfg.blocking.sources.Nodup)
    (earlier : List Refresh) (hurl : url ∈ cfg.blocking.sources) :
    ∃ entry, entryOf url (refreshed cfg earlier) = some entry ∧
      (entry.lastSuccess.isSome = true ↔ ∃ r ∈ earlier, r.Succeeded cfg url) := by
  have hnew : entryOf url (newHealth cfg) = some (.new url) := by
    rw [entryOf, newHealth]
    generalize cfg.blocking.sources = sources at hurl
    induction sources with
    | nil => cases hurl
    | cons first sources ih =>
      by_cases heq : first = url
      · simp [SourceHealth.new, heq]
      · have hin := (List.mem_cons.mp hurl).resolve_left (Ne.symm heq)
        simpa [SourceHealth.new, heq] using ih hin
  obtain ⟨entry, hentry, hiff⟩ := lastSuccess_run hnodup earlier hnew
  refine ⟨entry, hentry, hiff.trans (or_iff_right ?_)⟩
  intro h
  cases h

/-! ### What the entries say -/

theorem attempted_refreshSources (cfg : Config) (r : Refresh) (health : List SourceHealth) :
    (refreshSources cfg r health).outcome.attempted = cfg.blocking.sources.length := by
  rw [refreshSources]
  split
  · rfl
  · split
    · rfl
    · rw [attempted_foldl, ← map_fst_turns cfg r, List.length_map]
      exact Nat.zero_add _

theorem counted_refreshSources (cfg : Config) (r : Refresh) (health : List SourceHealth) :
    (refreshSources cfg r health).outcome.succeeded +
      (refreshSources cfg r health).outcome.failures.length = cfg.blocking.sources.length := by
  rw [refreshSources]
  split
  · simp [RefreshOutcome.allFailed]
  · split
    · simp [RefreshOutcome.allFailed]
    · rw [counted_foldl, ← map_fst_turns cfg r, List.length_map]
      exact Nat.zero_add _

theorem mem_failures_refreshSources {cfg : Config} {r : Refresh} {health : List SourceHealth}
    (hdir : r.dirCreated = true) (hclient : r.clientBuilt = true) {reason : Str} :
    (url, reason) ∈ (refreshSources cfg r health).outcome.failures ↔
      ∃ attempt, (url, attempt) ∈ r.tried cfg ∧ attempt.fetch.result = .error reason := by
  simp only [refreshSources, Refresh.tried, hdir, hclient, Bool.not_true, Bool.false_eq_true,
    if_false, Bool.and_self, if_true, mem_failures_foldl, List.not_mem_nil, false_or]

theorem entryOf_of_mem {health : List SourceHealth} (hnodup : (health.map SourceHealth.url).Nodup)
    {entry : SourceHealth} (h : entry ∈ health) : entryOf entry.url health = some entry := by
  rw [entryOf]
  induction health with
  | nil => cases h
  | cons first health ih =>
    rw [List.map_cons, List.nodup_cons] at hnodup
    rcases List.mem_cons.mp h with rfl | hin
    · simp
    · have hne : first.url ≠ entry.url := fun heq =>
        hnodup.1 (heq ▸ List.mem_map.mpr ⟨entry, hin, rfl⟩)
      rw [List.find?_cons_of_neg (by simpa using hne)]
      exact ih hnodup.2 hin

theorem map_url_refreshSources (cfg : Config) (earlier : List Refresh) (r : Refresh) :
    (refreshSources cfg r (refreshed cfg earlier)).health.map SourceHealth.url =
      cfg.blocking.sources := by
  rw [health_refreshSources, map_url_takeTurns, map_url_refreshed]

/-- Without early exits and repeated URLs, an entry is what its own turn made of it. -/
theorem entry_refreshSources {cfg : Config} (earlier : List Refresh) {r : Refresh}
    (hdir : r.dirCreated = true) (hclient : r.clientBuilt = true)
    (hnodup : cfg.blocking.sources.Nodup) {entry : SourceHealth}
    (h : entry ∈ (refreshSources cfg r (refreshed cfg earlier)).health) :
    ∃ (attempt : Attempt) (before : SourceHealth), (entry.url, attempt) ∈ r.tried cfg ∧
      entry = before.after attempt ∧
        (before.lastSuccess.isSome = true ↔ ∃ r ∈ earlier, r.Succeeded cfg entry.url) := by
  have hurls := map_url_refreshSources cfg earlier r
  have hentry := entryOf_of_mem (hurls ▸ hnodup) h
  have hurl : entry.url ∈ cfg.blocking.sources := hurls ▸ List.mem_map.mpr ⟨entry, h, rfl⟩
  have hturns : entry.url ∈ (r.turns cfg).map Prod.fst := map_fst_turns cfg r ▸ hurl
  obtain ⟨⟨other, attempt⟩, hin, heq⟩ := List.mem_map.mp hturns
  dsimp only at heq
  subst heq
  have htried : (entry.url, attempt) ∈ r.tried cfg := by
    rw [Refresh.tried, hdir, hclient]
    exact hin
  obtain ⟨before, hbefore, hiff⟩ := lastSuccess_refreshed hnodup earlier hurl
  refine ⟨attempt, before, htried, ?_, hiff⟩
  rw [entryOf_refreshSources hnodup htried, hbefore] at hentry
  exact (Option.some.inj hentry).symm

theorem truthful_of_turns {cfg : Config} (earlier : List Refresh) {r : Refresh}
    (hdir : r.dirCreated = true) (hclient : r.clientBuilt = true)
    (hnodup : cfg.blocking.sources.Nodup) :
    Truthful cfg earlier r (refreshSources cfg r (refreshed cfg earlier)).outcome
      (refreshSources cfg r (refreshed cfg earlier)).health := by
  refine ⟨attempted_refreshSources cfg r _, counted_refreshSources cfg r _, ?_, ?_, ?_, ?_⟩
  · intro entry hentry reason hfailed
    -- the failure is that of the one attempt at its URL
    obtain ⟨attempt, before, htried, heq, hiff⟩ :=
      entry_refreshSources earlier hdir hclient hnodup hentry
    obtain ⟨attempt', htried', hresult⟩ := (mem_failures_refreshSources hdir hclient).mp hfailed
    rw [attempt_unique hnodup htried' htried] at hresult
    rw [← hiff]
    rw [SourceHealth.after, hresult] at heq
    rw [heq] at hfailed ⊢
    refine ⟨fun h => ?_, fun h => ?_, reason, hfailed, rfl⟩
    · exact if_pos h
    · exact if_neg h
  · intro entry hentry hsucceeded
    obtain ⟨attempt, before, htried, heq, -⟩ :=
      entry_refreshSources earlier hdir hclient hnodup hentry
    obtain ⟨attempt', htried', bytes, hresult⟩ := hsucceeded
    rw [attempt_unique hnodup htried' htried] at hresult
    rw [SourceHealth.after, hresult] at heq
    rw [heq]
    exact ⟨rfl, rfl⟩
  · intro url hurl
    rw [← map_url_refreshSources cfg earlier r] at hurl
    exact List.mem_map.mp hurl
  · intro entry hentry
    obtain ⟨attempt, before, htried, heq, -⟩ :=
      entry_refreshSources earlier hdir hclient hnodup hentry
    refine ⟨attempt, htried, ?_⟩
    rw [heq, SourceHealth.after]
    cases attempt.fetch.result with
    | ok bytes =>
      refine ⟨rfl, fun h => ?_⟩
      cases h
    | error reason =>
      refine ⟨rfl, ?_⟩
      dsimp only
      split <;> decide

/-- The second entry of a repeated URL never records an attempt. -/
theorem nodup_of_attempts {cfg : Config} (earlier : List Refresh) (r : Refresh)
    (h : ∀ entry ∈ (refreshSources cfg r (refreshed cfg earlier)).health,
      ∃ now, entry.lastAttempt = some now) : cfg.blocking.sources.Nodup := by
  have huntouched : LaterUntouched (refreshSources cfg r (refreshed cfg earlier)).health := by
    rw [health_refreshSources]
    exact laterUntouched_takeTurns (laterUntouched_refreshed cfg earlier) _
  have hurls := map_url_refreshSources cfg earlier r
  rw [← hurls, List.Nodup, List.pairwise_map]
  refine huntouched.imp_of_mem fun _ hlater hnew heq => ?_
  obtain ⟨now, hnow⟩ := h _ hlater
  rw [hnew heq] at hnow
  cases hnow

theorem truthful_iff (cfg : Config) (earlier : List Refresh) (r : Refresh) :
    Truthful cfg earlier r (refreshSources cfg r (refreshed cfg earlier)).outcome
        (refreshSources cfg r (refreshed cfg earlier)).health ↔
      cfg.blocking.sources = [] ∨
        r.dirCreated = true ∧ r.clientBuilt = true ∧ cfg.blocking.sources.Nodup := by
  constructor
  · intro h
    rcases List.eq_nil_or_concat cfg.blocking.sources with hnil | ⟨_, url, hconcat⟩
    · exact .inl hnil
    · have hurl : url ∈ cfg.blocking.sources := by rw [hconcat]; simp
      obtain ⟨entry, hentry, -⟩ := h.recorded url hurl
      obtain ⟨attempt, htried, -⟩ := h.attempts entry hentry
      -- an attempt was made, so neither early exit was taken
      rw [Refresh.tried] at htried
      split at htried
      · next hboth =>
        obtain ⟨hdir, hclient⟩ := Bool.and_eq_true_iff.mp hboth
        refine .inr ⟨hdir, hclient, nodup_of_attempts earlier r fun entry hentry => ?_⟩
        obtain ⟨attempt, -, hlast, -⟩ := h.attempts entry hentry
        exact ⟨attempt.now, hlast⟩
      · cases htried
  · rintro (hnil | ⟨hdir, hclient, hnodup⟩)
    -- without sources there is nothing to be wrong about
    · have hempty : (refreshSources cfg r (refreshed cfg earlier)).health = [] := by
        rw [← List.map_eq_nil_iff (f := SourceHealth.url), map_url_refreshSources, hnil]
      refine ⟨attempted_refreshSources cfg r _, counted_refreshSources cfg r _, ?_, ?_, ?_, ?_⟩
      · rw [hempty]
        exact fun _ h => absurd h List.not_mem_nil
      · rw [hempty]
        exact fun _ h => absurd h List.not_mem_nil
      · rw [hnil]
        exact fun _ h => absurd h List.not_mem_nil
      · rw [hempty]
        exact fun _ h => absurd h List.not_mem_nil
    · exact truthful_of_turns earlier hdir hclient hnodup

/-- The state directory is read-only from the start. -/
def readOnly : Refresh where
  dirCreated := false
  clientBuilt := true
  attempts _ := ⟨0, ⟨.error [], 0, 0, .notCreated [], .error [], .error []⟩⟩
  files _ := none

theorem not_truthful : ¬ ∀ cfg earlier r,
    Truthful cfg earlier r (refreshSources cfg r (refreshed cfg earlier)).outcome
      (refreshSources cfg r (refreshed cfg earlier)).health := by
  intro h
  obtain ⟨-, hstate, -⟩ := (h {} [] readOnly).failed (.new _) List.mem_cons_self _
    List.mem_cons_self
  have hstate := hstate fun ⟨r, hr, _⟩ => absurd hr List.not_mem_nil
  cases hstate

end Netwatch.Blocklist
