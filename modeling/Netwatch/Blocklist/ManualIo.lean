import Netwatch.Blocklist.Fetch
import Netwatch.Blocklist.Manual

/-!
# Manual lists on a disk that may fail

`append_manual` and `remove_manual` with all that the file system may answer them. The directory
cannot be made, the file cannot be read or opened, or a write ends half way: then a part of the
new line stands at the end of the file, or the file is cut off in the middle.

## Main definitions

- `EditIo` — what the file system answers to one edit
- `Edit.perform` — the edit, as it then turns out
- `Edit.Torn` — its write ends half way and leaves another file

## Main results

- `perform_default` — on a disk that works, it is `Edit.exec`
- `perform_ends` — an edit is done, or has left the file as it was, or is torn
-/

namespace Netwatch.Blocklist

open RustStd

structure EditIo where
  createDirAll : Except Str Unit := .ok ()
  /-- `read_to_string` fails, whatever the file holds. -/
  unreadable : Bool := false
  write : WriteOutcome := .written

def EditIo.readToString (io : EditIo) (file : ListFile) : Option Str :=
  if io.unreadable then none else file.readToString

/-- The first `n` bytes of a text, unless a character is cut in two. -/
def takeBytes : ℕ → Str → Option Str
  | 0, _ => some []
  | _ + 1, [] => some []
  | n + 1, c :: s =>
    if c.utf8Size ≤ n + 1 then (takeBytes (n + 1 - c.utf8Size) s).map (c :: ·) else none

/-- The file with some more ASCII text at its end. -/
def ListFile.extend (file : ListFile) (text : Str) : ListFile :=
  match file with
  | .missing => .text text
  | .garbled => .garbled
  | .text contents => .text (contents ++ text)

/-- What is left of a new content when its write ends after `n` bytes. -/
def ListFile.cutOff (n : ℕ) (contents : Str) : ListFile :=
  match takeBytes n contents with
  | some front => .text front
  | none => .garbled

/-- A file is opened and written: the new file, or what is left of it after `n` bytes. -/
def writeList (write : WriteOutcome) (whole : ListFile) (front : ℕ → ListFile) (file : ListFile) :
    Except ManualError Unit × ListFile :=
  match write with
  | .written => (.ok (), whole)
  | .notCreated cause => (.error (.io cause), file)
  | .cutShort n cause => (.error (.io cause), front n)

/-- `OpenOptions::open` and `writeln!`; the line is ASCII, one byte a character. -/
def appendLine (write : WriteOutcome) (line : Str) (file : ListFile) :
    Except ManualError Unit × ListFile :=
  writeList write (file.writeln line) (fun n => file.extend ((line ++ ['\n']).take n)) file

/-- `std::fs::write` -/
def rewrite (write : WriteOutcome) (contents : Str) (file : ListFile) :
    Except ManualError Unit × ListFile :=
  writeList write (.text contents) (fun n => .cutOff n contents) file

/-- `append_manual` -/
def appendManualIo (io : EditIo) (domain : Str) (file : ListFile) :
    Except ManualError Unit × ListFile :=
  let domain := manualDomain domain
  if !(normalize domain).isSome then (.error (.notValidDomain domain), file)
  else match io.createDirAll with
    | .error cause => (.error (.io cause), file)
    | .ok () => match io.readToString file with
      | some existing =>
        if listsDomain existing domain then (.ok (), file) else appendLine io.write domain file
      | none => appendLine io.write domain file

/-- `remove_manual` -/
def removeManualIo (io : EditIo) (domain : Str) (file : ListFile) :
    Except ManualError Unit × ListFile :=
  let domain := manualDomain domain
  match io.readToString file with
  | none => (.ok (), file)
  | some existing => rewrite io.write (Str.unlines (kept existing domain)) file

def Edit.perform (io : EditIo) (e : Edit) (file : ListFile) : Except ManualError Unit × ListFile :=
  match e with
  | .append domain => appendManualIo io domain file
  | .remove domain => removeManualIo io domain file

theorem perform_default (e : Edit) (file : ListFile) : e.perform {} file = e.exec file := by
  cases e with
  | append domain => rfl
  | remove domain => rfl

/-! ### How an edit can end -/

/-- The edit comes to write the file. -/
def Edit.Writes (io : EditIo) (e : Edit) (file : ListFile) : Prop :=
  match e with
  | .append domain =>
    e.Valid ∧ io.createDirAll = .ok () ∧
      ∀ existing ∈ io.readToString file, listsDomain existing (manualDomain domain) = false
  | .remove _ => (io.readToString file).isSome = true

/-- The file that the edit writes. -/
def Edit.whole (e : Edit) (file : ListFile) : ListFile :=
  match e with
  | .append domain => file.writeln (manualDomain domain)
  | .remove domain => .text (Str.unlines (kept file.contents (manualDomain domain)))

/-- What stands there when its write ends after `n` bytes. -/
def Edit.front (n : ℕ) (e : Edit) (file : ListFile) : ListFile :=
  match e with
  | .append domain => file.extend ((manualDomain domain ++ ['\n']).take n)
  | .remove domain => .cutOff n (Str.unlines (kept file.contents (manualDomain domain)))

/-- The edit comes to write the file, and the write ends half way with another file. -/
def Edit.Torn (io : EditIo) (e : Edit) (file : ListFile) : Prop :=
  e.Writes io file ∧ ∃ n cause, io.write = .cutShort n cause ∧ e.front n file ≠ file

theorem EditIo.readToString_cases (io : EditIo) (file : ListFile) :
    io.readToString file = none ∨ io.readToString file = some file.contents := by
  rw [readToString]
  split
  · exact .inl rfl
  · cases file with
    | missing => exact .inl rfl
    | garbled => exact .inl rfl
    | text contents => exact .inr rfl

theorem perform_of_writes {io : EditIo} {e : Edit} {file : ListFile} (h : e.Writes io file) :
    e.perform io file = writeList io.write (e.whole file) (fun n => e.front n file) file := by
  cases e with
  | append domain =>
    obtain ⟨hvalid, hdir, hnew⟩ := h
    have hsome : (normalize (manualDomain domain)).isSome = true := hvalid
    rw [Edit.perform, appendManualIo, hsome, hdir]
    cases hread : io.readToString file with
    | none => rfl
    | some existing =>
      simp only [hnew existing hread]
      rfl
  | remove domain =>
    rcases io.readToString_cases file with hread | hread
    · have hsome : (io.readToString file).isSome = true := h
      rw [hread] at hsome
      cases hsome
    · rw [Edit.perform, removeManualIo, hread]
      rfl

/-- Without a write the file stays as it is, and nothing fails just if there is nothing to
add, or nothing to read. -/
theorem perform_of_not_writes {io : EditIo} {e : Edit} {file : ListFile} (h : ¬ e.Writes io file) :
    (e.perform io file).2 = file ∧ ((e.perform io file).1 = .ok () → e.Valid ∧
      ∀ domain, e = .append domain → manualDomain domain ∈ Str.listed file.contents) := by
  cases e with
  | append domain =>
    rw [Edit.perform, appendManualIo]
    by_cases hvalid : (normalize (manualDomain domain)).isSome = true
    · rw [hvalid]
      cases hdir : io.createDirAll with
      | error cause => exact ⟨rfl, nofun⟩
      | ok u =>
        rcases io.readToString_cases file with hread | hread
        · exact absurd ⟨hvalid, hdir, by rw [hread]; nofun⟩ h
        · rw [hread]
          cases hlists : listsDomain file.contents (manualDomain domain) with
          | true =>
            simp only [hlists]
            refine ⟨rfl, fun _ => ⟨hvalid, fun domain' heq => ?_⟩⟩
            cases heq
            exact (listsDomain_iff (manualDomain_ne_nil hvalid)).mp hlists
          | false =>
            refine absurd ⟨hvalid, hdir, fun existing hin => ?_⟩ h
            rw [hread] at hin
            exact Option.some.inj hin ▸ hlists
    · rw [Bool.not_eq_true] at hvalid
      rw [hvalid]
      exact ⟨rfl, nofun⟩
  | remove domain =>
    have hnone : io.readToString file = none := Option.not_isSome_iff_eq_none.mp h
    rw [Edit.perform, removeManualIo, hnone]
    exact ⟨rfl, fun _ => ⟨trivial, nofun⟩⟩

theorem Edit.Writes.valid {io : EditIo} {e : Edit} {file : ListFile} (h : e.Writes io file) :
    e.Valid := by
  cases e with
  | append domain => exact h.1
  | remove domain => trivial

/-- An edit is done, or has failed and left the file alone, or is torn. -/
inductive Ends (io : EditIo) (e : Edit) (file : ListFile) : Prop
  | done (hok : (e.perform io file).1 = .ok ()) (hvalid : e.Valid) (hwhole : ¬ e.Torn io file)
  | refused (err : ManualError) (herr : e.perform io file = (.error err, file))
      (hwhole : ¬ e.Torn io file)
  | torn (err : ManualError) (herr : (e.perform io file).1 = .error err) (htorn : e.Torn io file)

theorem perform_ends (io : EditIo) (e : Edit) (file : ListFile) : Ends io e file := by
  by_cases hwrites : e.Writes io file
  · have hperform := perform_of_writes hwrites
    cases hwrite : io.write with
    | written =>
      rw [hwrite] at hperform
      refine .done (by rw [hperform]; rfl) hwrites.valid ?_
      rintro ⟨-, n, cause, hcut, -⟩
      rw [hwrite] at hcut
      cases hcut
    | notCreated cause =>
      rw [hwrite] at hperform
      refine .refused _ hperform ?_
      rintro ⟨-, n, cause, hcut, -⟩
      rw [hwrite] at hcut
      cases hcut
    | cutShort n cause =>
      rw [hwrite] at hperform
      by_cases hsame : e.front n file = file
      · -- the error came before the file had changed
        refine .refused (.io cause) (hperform.trans (by rw [writeList, hsame])) ?_
        rintro ⟨-, n', cause', hcut, hne⟩
        rw [hwrite] at hcut
        cases hcut
        exact hne hsame
      · exact .torn (.io cause) (by rw [hperform]; rfl) ⟨hwrites, n, cause, hwrite, hsame⟩
  · obtain ⟨hfile, hvalid⟩ := perform_of_not_writes hwrites
    have hwhole : ¬ e.Torn io file := fun h => hwrites h.1
    cases hresult : (e.perform io file).1 with
    | ok u => exact .done hresult (hvalid hresult).1 hwhole
    | error err => exact .refused err (Prod.ext hresult hfile) hwhole

/-! ### Edits that are done -/

theorem written_of_ok {write : WriteOutcome} {whole file : ListFile} {front : ℕ → ListFile}
    (h : (writeList write whole front file).1 = .ok ()) :
    (writeList write whole front file).2 = whole := by
  cases write with
  | written => rfl
  | notCreated cause => cases h
  | cutShort n cause => cases h

theorem Tidy.whole {file : ListFile} {e : Edit} {io : EditIo} (h : file.Tidy)
    (hwrites : e.Writes io file) :
    (e.whole file).Tidy ∧
      Str.listed (e.whole file).contents = e.apply (Str.listed file.contents) := by
  cases e with
  | append domain =>
    have hwriteln : (Edit.append domain).whole file =
        (ListFile.text file.contents).writeln (manualDomain domain) := by
      rcases h with rfl | ⟨s, rfl, -⟩ <;> rfl
    have hterm : Str.Terminated file.contents := by
      rcases h with rfl | ⟨s, rfl, hs⟩
      · exact .inl rfl
      · exact hs
    obtain ⟨t, htext, ht, hlisted⟩ := listed_writeln hterm hwrites.1
    rw [hwriteln, htext]
    exact ⟨.inr ⟨t, rfl, ht⟩, hlisted⟩
  | remove domain =>
    exact ⟨.inr ⟨_, rfl, Str.terminated_unlines _⟩,
      Str.listed_unlines_filter file.contents (manualDomain domain)⟩

/-- On a file whose lines all end with a line feed an edit that is done does what it is for, save
that a file which could not be read keeps what was to be removed. -/
theorem Tidy.perform {file : ListFile} {e : Edit} {io : EditIo} (h : file.Tidy)
    (hok : (e.perform io file).1 = .ok ()) :
    (e.perform io file).2.Tidy ∧
      (Str.listed (e.perform io file).2.contents = e.apply (Str.listed file.contents) ∨
        (e.perform io file).2 = file ∧ ∃ domain, e = .remove domain) := by
  by_cases hwrites : e.Writes io file
  · rw [perform_of_writes hwrites] at hok ⊢
    rw [written_of_ok hok]
    exact ⟨(Tidy.whole h hwrites).1, .inl (Tidy.whole h hwrites).2⟩
  · obtain ⟨hfile, hdone⟩ := perform_of_not_writes hwrites
    rw [hfile]
    refine ⟨h, ?_⟩
    cases e with
    | append domain => exact .inl (Set.insert_eq_of_mem ((hdone hok).2 domain rfl)).symm
    | remove domain => exact .inr ⟨rfl, domain, rfl⟩

end Netwatch.Blocklist
