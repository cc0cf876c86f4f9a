import Netwatch.Blocklist.Attribution
import Netwatch.Blocklist.Manual
import Netwatch.Config

/-!
# The matcher of the files on disk

`build` of `blocklist.rs`: the downloaded lists, the local files, then the manual lists, the
allow list last.

## Main definitions

- `Disk` — the files of the machine
- `build` — the matcher of the configured files
- `buildCalls` — the `ingest` calls it comes down to
-/

namespace Netwatch.Blocklist

open RustStd

abbrev Disk := Str → ListFile

/-- `Path::file_name` -/
def fileName (path : Str) : Option Str :=
  match ((path.splitOn '/').filter fun part => part ≠ [] ∧ part ≠ ['.']).getLast? with
  | none => none
  | some part => if part = "..".toList then none else some part

/-- The number of entries added, `none` when the file cannot be read. -/
def ingestFile (bl : Blocklist) (disk : Disk) (path : Str) (allow : Bool) :
    Option ℕ × Blocklist :=
  match (disk path).readToString with
  | none => (none, bl)
  | some contents =>
    let name := (fileName path).getD path
    let (added, bl) := bl.ingest contents name allow
    (some added, bl)

/-- The arm of `build` for one downloaded list. -/
def ingestCached (cfg : Config) (disk : Disk) (bl : Blocklist) (url : Str) : Blocklist :=
  let path := cfg.cachedListPath url
  if disk path = .missing then bl
  else match (disk path).readToString with
    | some contents => (bl.ingest contents url false).2
    | none => bl

/-- The arms of `build` for the manual lists. -/
def ingestManual (disk : Disk) (bl : Blocklist) (path : Str) (allow : Bool) : Blocklist :=
  if disk path = .missing then bl else (bl.ingestFile disk path allow).2

def build (cfg : Config) (disk : Disk) : Blocklist :=
  if !cfg.blocking.enabled then {}
  else
    let bl := cfg.blocking.sources.foldl (ingestCached cfg disk) {}
    let bl := cfg.blocking.files.foldl (fun bl file => (bl.ingestFile disk file false).2) bl
    let bl := ingestManual disk bl cfg.manualDenyPath false
    ingestManual disk bl cfg.manualAllowPath true

/-! ### `build` as a sequence of calls -/

def cachedCall (cfg : Config) (disk : Disk) (url : Str) : Option IngestCall :=
  (disk (cfg.cachedListPath url)).readToString.map fun contents => ⟨contents, url, false⟩

def fileCall (disk : Disk) (allow : Bool) (path : Str) : Option IngestCall :=
  (disk path).readToString.map fun contents => ⟨contents, (fileName path).getD path, allow⟩

def buildCalls (cfg : Config) (disk : Disk) : List IngestCall :=
  cfg.blocking.sources.filterMap (cachedCall cfg disk) ++
    (cfg.blocking.files.filterMap (fileCall disk false) ++
      ((fileCall disk false cfg.manualDenyPath).toList ++
        (fileCall disk true cfg.manualAllowPath).toList))

theorem ingestCached_eq (cfg : Config) (disk : Disk) (bl : Blocklist) (url : Str) :
    ingestCached cfg disk bl url = (cachedCall cfg disk url).toList.foldl ingestCall bl := by
  rw [ingestCached, cachedCall]
  cases disk (cfg.cachedListPath url) <;> rfl

theorem ingestFile_eq (bl : Blocklist) (disk : Disk) (path : Str) (allow : Bool) :
    (bl.ingestFile disk path allow).2 =
      (fileCall disk allow path).toList.foldl ingestCall bl := by
  rw [ingestFile, fileCall]
  cases disk path <;> rfl

theorem ingestManual_eq (disk : Disk) (bl : Blocklist) (path : Str) (allow : Bool) :
    ingestManual disk bl path allow = (fileCall disk allow path).toList.foldl ingestCall bl := by
  rw [ingestManual]
  split
  · next hmissing =>
    rw [fileCall, hmissing]
    rfl
  · exact ingestFile_eq bl disk path allow

theorem foldl_filterMap_toList {α β γ : Type} (f : γ → β → γ) (g : α → Option β) (l : List α)
    (c : γ) : (l.filterMap g).foldl f c = l.foldl (fun c a => (g a).toList.foldl f c) c := by
  rw [List.foldl_filterMap]
  congr 1
  funext c a
  cases g a <;> rfl

theorem build_eq {cfg : Config} (h : cfg.blocking.enabled = true) (disk : Disk) :
    build cfg disk = ingestAll (buildCalls cfg disk) := by
  have hcached : ingestCached cfg disk =
      fun bl url => (cachedCall cfg disk url).toList.foldl ingestCall bl := by
    funext bl url
    exact ingestCached_eq cfg disk bl url
  simp only [build, h, ingestAll, buildCalls, List.foldl_append, foldl_filterMap_toList, hcached,
    ingestFile_eq, ingestManual_eq, Bool.not_true, Bool.false_eq_true, if_false]

theorem ingested_of_deny {cfg : Config} {disk : Disk} {r : ListRule}
    (h : r ∈ rules false (disk cfg.manualDenyPath)) : Ingested (buildCalls cfg disk) r := by
  cases hread : (disk cfg.manualDenyPath).readToString with
  | none =>
    have hr : r ∈ textRules false ((disk cfg.manualDenyPath).readToString.getD []) := h
    rw [hread] at hr
    exact absurd hr List.not_mem_nil
  | some contents =>
    have hr : r ∈ textRules false ((disk cfg.manualDenyPath).readToString.getD []) := h
    rw [hread] at hr
    have hcall : fileCall disk false cfg.manualDenyPath =
        some ⟨contents, (fileName cfg.manualDenyPath).getD cfg.manualDenyPath, false⟩ := by
      rw [fileCall, hread]
      rfl
    refine ⟨⟨contents, (fileName cfg.manualDenyPath).getD cfg.manualDenyPath, false⟩, ?_, hr⟩
    simp [buildCalls, hcall]

/-- What a rule of the deny list covers is blocked, unless it is allowed. -/
theorem lookup_build_of_deny {cfg : Config} {disk : Disk} {e : Entry} {d : Str}
    (henabled : cfg.blocking.enabled = true)
    (hrule : ⟨false, e⟩ ∈ rules false (disk cfg.manualDenyPath)) (hcovers : e.Covers d) :
    (build cfg disk).isAllowed d = true ∨ ((build cfg disk).lookup d).isSome = true := by
  rw [build_eq henabled, (reflects_ingestAll _).isAllowed_iff, isSome_lookup_iff]
  by_cases hallow : ∃ e, Ingested (buildCalls cfg disk) ⟨true, e⟩ ∧ e.Covers d
  · exact .inl hallow
  · exact .inr ⟨⟨e, ingested_of_deny hrule, hcovers⟩, hallow⟩

end Netwatch.Blocklist
