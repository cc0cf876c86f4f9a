import Netwatch.RustStd.IpAddr
import Netwatch.RustStd.Lines

/-!
# List entries

`normalize` canonicalises one entry of a list, `parse_adblock` recognises the
domain-anchored subset of Adblock Plus.
-/

namespace Netwatch.Blocklist

open RustStd

inductive Entry
  | exact (domain : Str)
  | wildcard (domain : Str)
  deriving DecidableEq

/-- One rule recovered from Adblock Plus syntax. -/
inductive AdblockRule
  | block (domain : Str)
  | exception (domain : Str)
  deriving DecidableEq

def labelOk (label : Str) : Bool :=
  label ≠ [] && Str.len label ≤ 63 && label.all fun b => b.isAlphanum || b == '-' || b == '_'

/-- The checks of `normalize`, in its order: a malformed list cannot poison the matcher. -/
def domainOk (domain : Str) : Bool :=
  domain ≠ [] && Str.len domain ≤ 253 && '.' ∈ domain && !(IpAddr.parse domain).isSome &&
    (domain.splitOn '.').all labelOk

def stripWildcard (e : Str) : Bool × Str :=
  match Str.stripPrefix "*.".toList e with
  | some rest => (true, rest)
  | none => (false, e)

def normalize (entry : Str) : Option Entry :=
  let e := Str.toAsciiLowercase (Str.trimEndMatches '.' (Str.trim entry))
  let (wild, domain) := stripWildcard e
  if !domainOk domain then none
  else some (if wild then .wildcard domain else .exact domain)

def parseAdblock (line : Str) : Option AdblockRule :=
  -- `[Adblock Plus 2.0]` and similar headers
  if line.head? = some '[' then none
  else
    let (rest, exception) := match Str.stripPrefix "@@".toList line with
      | some r => (r, true)
      | none => (line, false)
    match Str.stripPrefix "||".toList rest with
    | none => none
    | some rest =>
      let (domain, tail) := rest.span fun c => c ≠ '^' ∧ c ≠ '$' ∧ c ≠ '/'
      let hasModifier := tail.contains '$' || tail.contains '/'
      if hasModifier ∨ domain = [] ∨ '*' ∈ domain then none
      else some (if exception then .exception domain else .block domain)

def Entry.domain : Entry → Str
  | .exact d => d
  | .wildcard d => d

theorem labelOk_iff {l : Str} :
    labelOk l = true ↔
      l ≠ [] ∧ Str.len l ≤ 63 ∧ ∀ c ∈ l, c.isAlphanum = true ∨ c = '-' ∨ c = '_' := by
  simp only [labelOk, Bool.and_eq_true, List.all_eq_true, Bool.or_eq_true, beq_iff_eq,
    decide_eq_true_eq, and_assoc, or_assoc]

theorem domainOk_iff {d : Str} :
    domainOk d = true ↔ d ≠ [] ∧ Str.len d ≤ 253 ∧ '.' ∈ d ∧ IpAddr.parse d = none ∧
      ∀ l ∈ d.splitOn '.', labelOk l = true := by
  simp only [domainOk, Bool.and_eq_true, decide_eq_true_eq, Bool.not_eq_true',
    Option.isSome_eq_false_iff, Option.isNone_iff_eq_none, List.all_eq_true, and_assoc]

theorem domainOk_of_normalize {s : Str} {e : Entry} (h : normalize s = some e) :
    domainOk e.domain = true := by
  simp only [normalize] at h
  split at h
  · cases h
  · next hok =>
    rw [Bool.not_eq_true, Bool.not_eq_false'] at hok
    rw [← Option.some.inj h]
    split <;> exact hok

theorem domain_ne_nil_of_normalize {s : Str} {e : Entry} (h : normalize s = some e) :
    e.domain ≠ [] := (domainOk_iff.mp (domainOk_of_normalize h)).1

theorem chars_of_labels {d : Str} (h : ∀ l ∈ d.splitOn '.', labelOk l = true) :
    ∀ c ∈ d, c = '.' ∨ c.isAlphanum = true ∨ c = '-' ∨ c = '_' := by
  intro c hc
  have hparts : Str.join ['.'] (d.splitOn '.') = d := List.intercalate_splitOn '.'
  rw [← hparts] at hc
  rcases Str.mem_join hc with hdot | ⟨label, hlabel, hin⟩
  · exact .inl (List.mem_singleton.mp hdot)
  · exact .inr ((labelOk_iff.mp (h label hlabel)).2.2 c hin)

theorem domainOk_chars {d : Str} (h : domainOk d = true) :
    ∀ c ∈ d, c = '.' ∨ c.isAlphanum = true ∨ c = '-' ∨ c = '_' :=
  chars_of_labels (domainOk_iff.mp h).2.2.2.2

theorem mem_stripWildcard {s : Str} {c : Char} (h : c ∈ s) :
    c = '*' ∨ c = '.' ∨ c ∈ (stripWildcard s).2 := by
  rw [stripWildcard]
  split
  · next rest hrest =>
    rw [Str.stripPrefix_eq_some hrest, List.mem_append] at h
    rcases h with hpre | hin
    · have htwo : c = '*' ∨ c = '.' := by simpa using hpre
      exact or_assoc.mp (.inl htwo)
    · exact .inr (.inr hin)
  · exact .inr (.inr h)

/-- Around a domain `normalize` drops white space, dots and a `*.` in front. -/
theorem chars_of_normalize {s : Str} {e : Entry} (h : normalize s = some e) :
    ∀ c ∈ s, Str.isWhitespace c = true ∨ c = '*' ∨ c = '.' ∨ c.isAlphanum = true ∨ c = '-' ∨
      c = '_' := by
  intro c hc
  have hok : domainOk (stripWildcard
      (Str.toAsciiLowercase (Str.trimEndMatches '.' (Str.trim s)))).2 = true := by
    rw [normalize] at h
    simp only at h
    split at h
    · cases h
    · next hnot => simpa using hnot
  obtain ⟨v, w, hv, hw, hs⟩ := Str.exists_eq_trim s
  rw [hs, List.mem_append, List.mem_append] at hc
  rcases hc with hc | hc | hc
  · exact .inl (hv c hc)
  · rcases Str.mem_trimEndMatches '.' hc with rfl | hin
    · exact .inr (.inr (.inl rfl))
    · have hlower := mem_stripWildcard (List.mem_map_of_mem (f := Char.toLower) hin)
      rcases Str.toLower_cases c with hsame | ⟨hlow, hhigh, _⟩
      · rw [hsame] at hlower
        rcases hlower with hstar | hdot | hrest
        · exact .inr (.inl hstar)
        · exact .inr (.inr (.inl hdot))
        · obtain hdot | hother := domainOk_chars hok c hrest
          · exact .inr (.inr (.inl hdot))
          · exact .inr (.inr (.inr hother))
      · exact .inr (.inr (.inr (.inl (Str.isAlphanum_of_upper hlow hhigh))))
  · exact .inl (hw c hc)

end Netwatch.Blocklist
