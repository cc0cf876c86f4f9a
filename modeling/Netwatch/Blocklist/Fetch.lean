import Netwatch.Config
import Netwatch.RustStd.Path
import Mathlib.Data.Nat.Digits.Defs
import Mathlib.Logic.Function.Basic

/-!
# Downloading one list

`fetch_one` of `blocklist.rs` reads a whole body into memory, writes it to a temporary file and
renames that over the cached list. What the server and the file system answer is left open. The
temporary file is removed after a failed rename only: a write that fails half way leaves it.

## Main definitions

- `Fetch` — everything that one download does not decide itself
- `receive` — the part that talks to the server
- `fetchOne` — the whole download
- `AllOrNothing` — the list whole or as it was, and no temporary file left
- `Fetch.LeavesTemp` — the answers after which a temporary file stays

## Main results

- `receive_eq_ok_iff` — the bodies that are accepted
- `allOrNothing_iff` — a download is all or nothing on disk, except for that file
-/

namespace Netwatch.Blocklist

open RustStd

/-- The files of the machine by their paths, as the bytes they hold. -/
abbrev FileSystem := Str → Option (List UInt8)

structure StatusCode where
  code : ℕ
  /-- As it is displayed, with its canonical reason. -/
  text : Str

def StatusCode.isSuccess (status : StatusCode) : Bool := 200 ≤ status.code && status.code < 300

structure Response where
  status : StatusCode
  contentLength : Option ℕ
  chunks : List (List UInt8)
  /-- The error that `chunk` ends with, if the body does not end there. -/
  broken : Option Str

inductive WriteOutcome
  | written
  /-- The file could not be opened for writing. -/
  | notCreated (cause : Str)
  /-- The file was created, or emptied, and the error came after `n` bytes. -/
  | cutShort (n : ℕ) (cause : Str)

structure Fetch where
  response : Except Str Response
  /-- The process, and the number of the download in it. -/
  pid : ℕ
  seq : ℕ
  write : WriteOutcome
  rename : Except Str Unit
  remove : Except Str Unit

/-- `MAX_LIST_BYTES` -/
def maxListBytes : ℕ := 64 * 1024 * 1024

/-- `while let Some(chunk) = resp.chunk()` -/
def readBody (body : List UInt8) : List (List UInt8) → Option Str → Except Str (List UInt8)
  | [], none => .ok body
  | [], some cause => .error ("reading body: ".toList ++ cause)
  | chunk :: chunks, broken =>
    if body.length + chunk.length ≤ maxListBytes then readBody (body ++ chunk) chunks broken
    else .error ("list exceeded the ".toList ++ Nat.toDigits 10 maxListBytes ++
      " byte limit mid-download".toList)

/-- `anyhow::ensure!` on the status, the declared length and, once it is read, the body. -/
def receive (response : Except Str Response) : Except Str (List UInt8) :=
  match response with
  | .error cause => .error ("request failed: ".toList ++ cause)
  | .ok resp =>
    if !resp.status.isSuccess then .error ("HTTP ".toList ++ resp.status.text)
    else match resp.contentLength.filter (maxListBytes < ·) with
      | some len => .error ("list is ".toList ++ Nat.toDigits 10 len ++
          " bytes, over the ".toList ++ Nat.toDigits 10 maxListBytes ++ " byte limit".toList)
      | none => do
        let body ← readBody [] resp.chunks resp.broken
        if body = [] then .error "empty response body".toList else .ok body

/-! ### The file system -/

/-- `std::fs::write` -/
def writeFile (outcome : WriteOutcome) (path : Str) (bytes : List UInt8) (fs : FileSystem) :
    Except Str Unit × FileSystem :=
  match outcome with
  | .written => (.ok (), Function.update fs path (some bytes))
  | .notCreated cause => (.error cause, fs)
  | .cutShort n cause => (.error cause, Function.update fs path (some (bytes.take n)))

/-- `std::fs::rename` -/
def rename (outcome : Except Str Unit) (src dst : Str) (fs : FileSystem) :
    Except Str Unit × FileSystem :=
  match outcome with
  | .ok () => (.ok (), Function.update (Function.update fs dst (fs src)) src none)
  | .error cause => (.error cause, fs)

/-- `std::fs::remove_file` -/
def removeFile (outcome : Except Str Unit) (path : Str) (fs : FileSystem) :
    Except Str Unit × FileSystem :=
  match outcome with
  | .ok () => (.ok (), Function.update fs path none)
  | .error cause => (.error cause, fs)

/-- `dest.with_extension(format!("tmp.{}.{seq}", std::process::id()))` -/
def Fetch.tmp (fetch : Fetch) (dest : Str) : Str :=
  Path.withExtension dest
    ("tmp.".toList ++ Nat.toDigits 10 fetch.pid ++ '.' :: Nat.toDigits 10 fetch.seq)

/-- `fetch_one` once it has the body. -/
def replaceList (fetch : Fetch) (dest : Str) (body : List UInt8) (fs : FileSystem) :
    Except Str ℕ × FileSystem :=
  match writeFile fetch.write (fetch.tmp dest) body fs with
  | (.error cause, fs) => (.error ("writing temporary list: ".toList ++ cause), fs)
  | (.ok (), fs) =>
    match rename fetch.rename (fetch.tmp dest) dest fs with
    | (.ok (), fs) => (.ok body.length, fs)
    | (.error cause, fs) =>
      (.error ("replacing cached list: ".toList ++ cause),
        (removeFile fetch.remove (fetch.tmp dest) fs).2)

def fetchOne (fetch : Fetch) (dest : Str) (fs : FileSystem) : Except Str ℕ × FileSystem :=
  match receive fetch.response with
  | .error reason => (.error reason, fs)
  | .ok body => replaceList fetch dest body fs

/-- What a download comes to, which the files do not decide. -/
def Fetch.result (fetch : Fetch) : Except Str ℕ := (fetchOne fetch [] fun _ => none).1

/-! ### What is accepted -/

structure Response.Accepted (resp : Response) : Prop where
  status : resp.status.isSuccess = true
  declared : ∀ len, resp.contentLength = some len → len ≤ maxListBytes
  whole : resp.broken = none
  nonempty : resp.chunks.flatten ≠ []
  bounded : resp.chunks.flatten.length ≤ maxListBytes

theorem readBody_eq_ok_iff {body body' : List UInt8} {chunks : List (List UInt8)}
    {broken : Option Str} (hbody : body.length ≤ maxListBytes) :
    readBody body chunks broken = .ok body' ↔
      broken = none ∧ body' = body ++ chunks.flatten ∧ body'.length ≤ maxListBytes := by
  induction chunks generalizing body with
  | nil =>
    cases broken with
    | none =>
      rw [readBody, List.flatten_nil, List.append_nil]
      constructor
      · intro h
        cases h
        exact ⟨rfl, rfl, hbody⟩
      · rintro ⟨-, rfl, -⟩
        rfl
    | some cause =>
      rw [readBody]
      exact iff_of_false (fun h => by cases h) fun h => by cases h.1
  | cons chunk chunks ih =>
    rw [readBody, List.flatten_cons, ← List.append_assoc]
    by_cases hfits : body.length + chunk.length ≤ maxListBytes
    · rw [if_pos hfits]
      exact ih (by rw [List.length_append]; exact hfits)
    · rw [if_neg hfits]
      refine iff_of_false (fun h => by cases h) ?_
      rintro ⟨-, rfl, hlen⟩
      simp only [List.length_append] at hlen
      omega

theorem receive_eq_ok_iff {response : Except Str Response} {body : List UInt8} :
    receive response = .ok body ↔
      ∃ resp, response = .ok resp ∧ resp.Accepted ∧ body = resp.chunks.flatten := by
  cases response with
  | error cause => exact iff_of_false (fun h => by cases h) (by rintro ⟨resp, h, -⟩; cases h)
  | ok resp =>
    have hread := @readBody_eq_ok_iff [] body resp.chunks resp.broken (Nat.zero_le _)
    rw [List.nil_append] at hread
    constructor
    · intro h
      -- one check after the other, in the order of the code
      rw [receive] at h
      split at h
      · cases h
      · next hstatus =>
        split at h
        · cases h
        · next hdeclared =>
          rw [Option.filter_eq_none_iff] at hdeclared
          cases hok : readBody [] resp.chunks resp.broken with
          | error reason =>
            rw [hok] at h
            cases h
          | ok whole =>
            rw [hok] at h
            change (if whole = [] then Except.error _ else Except.ok whole) = _ at h
            split at h
            · cases h
            · next hne =>
              cases h
              obtain ⟨hwhole, rfl, hlen⟩ := hread.mp hok
              refine ⟨resp, rfl, ⟨by simpa using hstatus, fun len hlen => ?_, hwhole, hne, hlen⟩,
                rfl⟩
              simpa using hdeclared len hlen
    · rintro ⟨resp', heq, haccepted, rfl⟩
      cases heq
      have hdeclared : resp.contentLength.filter (maxListBytes < ·) = none := by
        rw [Option.filter_eq_none_iff]
        intro len hlen
        simpa using haccepted.declared len hlen
      have hok := hread.mpr ⟨haccepted.whole, rfl, haccepted.bounded⟩
      rw [receive]
      simp only [haccepted.status, hdeclared, hok, bind, Except.bind, haccepted.nonempty, if_false,
        Bool.not_true, Bool.false_eq_true]

/-! ### The temporary file -/

theorem joinPath_append (base p q : Str) : joinPath base (p ++ q) = joinPath base p ++ q := by
  rw [joinPath, joinPath]
  split
  · rfl
  · split <;> simp

theorem not_mem_hex16 {c : Char} (h : ∀ d < 16, Nat.digitChar d ≠ c) (n : UInt64) :
    c ∉ hex16 n := by
  intro hc
  rw [hex16, List.mem_map] at hc
  obtain ⟨i, -, hdigit⟩ := hc
  exact h _ (Nat.mod_lt _ (by decide)) hdigit

theorem tmp_cachedListPath (fetch : Fetch) (cfg : Config) (url : Str) :
    ∃ stem, cfg.cachedListPath url = stem ++ ".list".toList ∧
      fetch.tmp (cfg.cachedListPath url) = stem ++ (".tmp.".toList ++
        Nat.toDigits 10 fetch.pid ++ '.' :: Nat.toDigits 10 fetch.seq) := by
  have hpath : cfg.cachedListPath url = joinPath cfg.blocking.stateDir "lists".toList ++
      '/' :: (hex16 (fnv1a url) ++ '.' :: "list".toList) := by
    rw [Config.cachedListPath, List.append_assoc, ← joinPath_append]
    rfl
  have hslash : '/' ∉ hex16 (fnv1a url) ++ '.' :: "list".toList := by
    rw [List.mem_append]
    rintro (hhex | hlist)
    · exact not_mem_hex16 (by decide) (fnv1a url) hhex
    · exact absurd hlist (by decide)
  have hlen : (hex16 (fnv1a url)).length = 16 := by rw [hex16, List.length_map, List.length_range]
  have hne : hex16 (fnv1a url) ≠ [] := by
    intro h
    rw [h] at hlen
    cases hlen
  have hlong : ∀ name : Str, name.length < 16 →
      hex16 (fnv1a url) ++ '.' :: "list".toList ≠ name := by
    rintro name hshort rfl
    rw [List.length_append] at hshort
    omega
  refine ⟨joinPath cfg.blocking.stateDir "lists".toList ++ '/' :: hex16 (fnv1a url), ?_, ?_⟩
  · rw [hpath]
    simp
  · rw [Fetch.tmp, hpath, Path.withExtension_append hslash (hlong [] (by decide))
      (hlong ['.'] (by decide)) (hlong _ (by decide)), Path.fileStem_append hne (by decide)]
    simp

theorem tmp_ne_cachedListPath (fetch : Fetch) (cfg : Config) (url : Str) :
    fetch.tmp (cfg.cachedListPath url) ≠ cfg.cachedListPath url := by
  obtain ⟨stem, hpath, htmp⟩ := tmp_cachedListPath fetch cfg url
  intro h
  rw [htmp, hpath] at h
  have hext := List.append_cancel_left h
  have htail : 't' :: _ = 'l' :: _ := (List.cons.inj hext).2
  exact absurd (List.cons.inj htail).1 (by decide)

/-! ### All or nothing -/

/-- `std::fs::write` gets to open the temporary file. -/
def Fetch.OpensTemp (fetch : Fetch) : Prop :=
  (∃ resp, fetch.response = .ok resp ∧ resp.Accepted) ∧ ∀ cause, fetch.write ≠ .notCreated cause

/-- The list arrives whole, or the old one stays as it was. A temporary file that was opened is
gone afterwards, also when a file of that name was there before, and no other file is touched. -/
structure AllOrNothing (fetch : Fetch) (dest : Str) (fs : FileSystem) : Prop where
  ok : ∀ n, (fetchOne fetch dest fs).1 = .ok n → ∃ resp, fetch.response = .ok resp ∧
    (fetchOne fetch dest fs).2 dest = some resp.chunks.flatten ∧
      resp.chunks.flatten.length = n ∧ 1 ≤ n ∧ n ≤ maxListBytes
  error : ∀ reason, (fetchOne fetch dest fs).1 = .error reason →
    (fetchOne fetch dest fs).2 dest = fs dest
  noLeftover : fetch.OpensTemp → (fetchOne fetch dest fs).2 (fetch.tmp dest) = none
  neverOpened : ¬ fetch.OpensTemp →
    (fetchOne fetch dest fs).2 (fetch.tmp dest) = fs (fetch.tmp dest)
  others : ∀ path, path ≠ dest → path ≠ fetch.tmp dest →
    (fetchOne fetch dest fs).2 path = fs path

/-- The temporary file is created and neither renamed nor removed. -/
def Fetch.Abandons (fetch : Fetch) : Prop :=
  (∃ n cause, fetch.write = .cutShort n cause) ∨
    fetch.write = .written ∧ (∃ cause, fetch.rename = .error cause) ∧
      ∃ cause, fetch.remove = .error cause

def Fetch.LeavesTemp (fetch : Fetch) : Prop :=
  (∃ resp, fetch.response = .ok resp ∧ resp.Accepted) ∧ fetch.Abandons

theorem opens_of_abandons {fetch : Fetch} (h : fetch.Abandons) :
    ∀ cause, fetch.write ≠ .notCreated cause := by
  rcases h with ⟨n, cause, hwrite⟩ | ⟨hwrite, _⟩
  · rw [hwrite]
    nofun
  · rw [hwrite]
    nofun

/-- Nothing is written; or the list is replaced; or the write is undone; or the temporary file
is left. -/
theorem replaceList_cases (fetch : Fetch) (dest : Str) (body : List UInt8) (fs : FileSystem) :
    ((∃ cause, fetch.write = .notCreated cause) ∧
      ∃ reason, replaceList fetch dest body fs = (.error reason, fs)) ∨
    (¬ fetch.Abandons ∧ (∀ cause, fetch.write ≠ .notCreated cause) ∧
      replaceList fetch dest body fs = (.ok body.length, Function.update
        (Function.update (Function.update fs (fetch.tmp dest) (some body)) dest (some body))
          (fetch.tmp dest) none)) ∨
    (¬ fetch.Abandons ∧ (∀ cause, fetch.write ≠ .notCreated cause) ∧ ∃ reason,
      replaceList fetch dest body fs =
        (.error reason, Function.update fs (fetch.tmp dest) none)) ∨
    (fetch.Abandons ∧ ∃ reason bytes, replaceList fetch dest body fs =
      (.error reason, Function.update fs (fetch.tmp dest) (some bytes))) := by
  cases hwrite : fetch.write with
  | notCreated cause =>
    -- there is no temporary file
    exact .inl ⟨⟨cause, rfl⟩, _, by rw [replaceList, hwrite]; rfl⟩
  | cutShort n cause =>
    -- the bytes written so far stay behind
    exact .inr (.inr (.inr ⟨.inl ⟨n, cause, hwrite⟩, _, body.take n,
      by rw [replaceList, hwrite]; rfl⟩))
  | written =>
    have hiff : fetch.Abandons ↔ (∃ cause, fetch.rename = .error cause) ∧
        ∃ cause, fetch.remove = .error cause := by
      simp [Fetch.Abandons, hwrite]
    cases hrename : fetch.rename with
    | ok u =>
      refine .inr (.inl ⟨?_, nofun, ?_⟩)
      · rw [hiff, hrename]
        rintro ⟨⟨cause, h⟩, -⟩
        cases h
      · rw [replaceList, hwrite, hrename, writeFile]
        simp only [rename, Function.update_self]
    | error cause =>
      cases hremove : fetch.remove with
      | ok u =>
        -- the rename has failed, and the temporary file is removed again
        have hreplace : replaceList fetch dest body fs =
            (.error ("replacing cached list: ".toList ++ cause),
              Function.update fs (fetch.tmp dest) none) := by
          rw [replaceList, hwrite, hrename, hremove, writeFile]
          simp only [rename, removeFile, Function.update_idem]
        refine .inr (.inr (.inl ⟨?_, nofun, _, hreplace⟩))
        rw [hiff, hremove]
        rintro ⟨-, cause, h⟩
        cases h
      | error cause' =>
        -- neither the rename nor the removal has worked
        have hreplace : replaceList fetch dest body fs =
            (.error ("replacing cached list: ".toList ++ cause),
              Function.update fs (fetch.tmp dest) (some body)) := by
          rw [replaceList, hwrite, hrename, hremove]
          rfl
        exact .inr (.inr (.inr ⟨hiff.mpr ⟨⟨cause, hrename⟩, cause', hremove⟩, _, body, hreplace⟩))

theorem fetchOne_cases (fetch : Fetch) (dest : Str) (fs : FileSystem) :
    (∃ reason, fetchOne fetch dest fs = (.error reason, fs) ∧
      ¬ ∃ resp, fetch.response = .ok resp ∧ resp.Accepted) ∨
    (∃ resp, fetch.response = .ok resp ∧ resp.Accepted ∧
      fetchOne fetch dest fs = replaceList fetch dest resp.chunks.flatten fs) := by
  cases hreceive : receive fetch.response with
  | error reason =>
    refine .inl ⟨reason, by rw [fetchOne, hreceive], ?_⟩
    rintro ⟨resp, hresp, haccepted⟩
    rw [receive_eq_ok_iff.mpr ⟨resp, hresp, haccepted, rfl⟩] at hreceive
    cases hreceive
  | ok body =>
    obtain ⟨resp, hresp, haccepted, rfl⟩ := receive_eq_ok_iff.mp hreceive
    exact .inr ⟨resp, hresp, haccepted, by rw [fetchOne, hreceive]⟩

theorem replaceList_fst (fetch : Fetch) (dest dest' : Str) (body : List UInt8)
    (fs fs' : FileSystem) :
    (replaceList fetch dest body fs).1 = (replaceList fetch dest' body fs').1 := by
  rw [replaceList, replaceList]
  cases fetch.write with
  | notCreated cause => rfl
  | cutShort n cause => rfl
  | written => cases fetch.rename <;> rfl

theorem fetchOne_fst (fetch : Fetch) (dest : Str) (fs : FileSystem) :
    (fetchOne fetch dest fs).1 = fetch.result := by
  rw [Fetch.result, fetchOne, fetchOne]
  cases receive fetch.response with
  | error reason => rfl
  | ok body => exact replaceList_fst fetch dest [] body fs _

/-- A failed download in whose course only the temporary file may have changed. -/
theorem allOrNothing_of_error {fetch : Fetch} {dest : Str} {fs : FileSystem} {reason : Str}
    {temp : Option (List UInt8)} (htmp : fetch.tmp dest ≠ dest)
    (h : fetchOne fetch dest fs = (.error reason, Function.update fs (fetch.tmp dest) temp))
    (hopened : fetch.OpensTemp → temp = none)
    (hnever : ¬ fetch.OpensTemp → temp = fs (fetch.tmp dest)) : AllOrNothing fetch dest fs where
  ok n hn := by
    rw [h] at hn
    cases hn
  error _ _ := by
    rw [h]
    exact Function.update_of_ne htmp.symm _ _
  noLeftover hopen := by
    rw [h]
    exact (Function.update_self _ _ _).trans (hopened hopen)
  neverOpened hclosed := by
    rw [h]
    exact (Function.update_self _ _ _).trans (hnever hclosed)
  others path _ hpath := by
    rw [h]
    exact Function.update_of_ne hpath _ _

theorem allOrNothing_of_ok {fetch : Fetch} {dest : Str} {fs : FileSystem} {resp : Response}
    (hresp : fetch.response = .ok resp) (haccepted : resp.Accepted) (htmp : fetch.tmp dest ≠ dest)
    (hopen : fetch.OpensTemp)
    (h : fetchOne fetch dest fs = (.ok resp.chunks.flatten.length, Function.update
      (Function.update (Function.update fs (fetch.tmp dest) (some resp.chunks.flatten)) dest
        (some resp.chunks.flatten)) (fetch.tmp dest) none)) :
    AllOrNothing fetch dest fs where
  ok n hn := by
    rw [h] at hn
    cases hn
    refine ⟨resp, hresp, ?_, rfl, List.length_pos_of_ne_nil haccepted.nonempty,
      haccepted.bounded⟩
    rw [h]
    dsimp only
    rw [Function.update_of_ne htmp.symm, Function.update_self]
  error reason hreason := by
    rw [h] at hreason
    cases hreason
  noLeftover _ := by
    rw [h]
    exact Function.update_self _ _ _
  neverOpened hclosed := absurd hopen hclosed
  others path hpath hne := by
    rw [h]
    dsimp only
    rw [Function.update_of_ne hne, Function.update_of_ne hpath, Function.update_of_ne hne]

/-- Whatever the server and the file system answer, and whatever is on disk before. -/
theorem allOrNothing_iff (cfg : Config) (url : Str) (fetch : Fetch) (fs : FileSystem) :
    AllOrNothing fetch (cfg.cachedListPath url) fs ↔ ¬ fetch.LeavesTemp := by
  have htmp := tmp_ne_cachedListPath fetch cfg url
  generalize cfg.cachedListPath url = dest at htmp
  have hsame := Function.update_eq_self (fetch.tmp dest) fs
  obtain ⟨reason, hfetch, hnone⟩ | ⟨resp, hresp, haccepted, hfetch⟩ := fetchOne_cases fetch dest fs
  · -- nothing was written yet
    refine iff_of_true ?_ fun h => hnone h.1
    exact allOrNothing_of_error htmp (hfetch.trans (by rw [hsame]))
      (fun hopen => absurd hopen.1 hnone) fun _ => rfl
  have hopens : (∀ cause, fetch.write ≠ .notCreated cause) → fetch.OpensTemp :=
    fun h => ⟨⟨resp, hresp, haccepted⟩, h⟩
  obtain ⟨⟨cause, hclosed⟩, reason, hreplace⟩ | ⟨hkeeps, hopened, hreplace⟩ |
      ⟨hkeeps, hopened, reason, hreplace⟩ | ⟨habandons, reason, bytes, hreplace⟩ :=
    replaceList_cases fetch dest resp.chunks.flatten fs
  · -- the temporary file was never opened
    refine iff_of_true ?_ fun h => opens_of_abandons h.2 cause hclosed
    exact allOrNothing_of_error htmp ((hfetch.trans hreplace).trans (by rw [hsame]))
      (fun hopen => absurd hclosed (hopen.2 cause)) fun _ => rfl
  · refine iff_of_true ?_ fun h => hkeeps h.2
    exact allOrNothing_of_ok hresp haccepted htmp (hopens hopened) (hfetch.trans hreplace)
  · refine iff_of_true ?_ fun h => hkeeps h.2
    exact allOrNothing_of_error htmp (hfetch.trans hreplace) (fun _ => rfl)
      fun hclosed => absurd (hopens hopened) hclosed
  · -- it was, and it is still there
    refine iff_of_false (fun h => ?_) (not_not_intro ⟨⟨resp, hresp, haccepted⟩, habandons⟩)
    have hgone := h.noLeftover (hopens (opens_of_abandons habandons))
    rw [hfetch, hreplace] at hgone
    dsimp only at hgone
    rw [Function.update_self] at hgone
    cases hgone

/-- The disk fills up while the list is written. -/
def diskFull : Fetch where
  response := .ok ⟨⟨200, "200 OK".toList⟩, none, [[97, 46, 98, 10]], none⟩
  pid := 812
  seq := 0
  write := .cutShort 0 "No space left on device (os error 28)".toList
  rename := .ok ()
  remove := .ok ()

theorem not_allOrNothing :
    ¬ ∀ cfg url fetch fs, AllOrNothing fetch (Config.cachedListPath cfg url) fs := by
  intro h
  have hopens : diskFull.OpensTemp :=
    ⟨⟨_, rfl, rfl, nofun, rfl, by decide, by decide⟩, nofun⟩
  have hgone := (h {} [] diskFull fun _ => none).noLeftover hopens
  have hfetch : (fetchOne diskFull (Config.cachedListPath {} []) fun _ => none).2 =
      Function.update (fun _ => none) (diskFull.tmp (Config.cachedListPath {} [])) (some []) := rfl
  rw [hfetch, Function.update_self] at hgone
  cases hgone

end Netwatch.Blocklist
