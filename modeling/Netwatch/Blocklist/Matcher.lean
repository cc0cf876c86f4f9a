import Netwatch.RustStd.HashMap
import Netwatch.Blocklist.Normalize
import Mathlib.Data.Finset.Insert

/-!
# The matcher

`Blocklist` of `blocklist.rs`: four rule sets and the table of source names, with the
lookup that walks up the labels of a name.
-/

namespace Netwatch

open RustStd

abbrev SourceId := UInt16

structure SourceStat where
  name : Str
  entries : ℕ
  deriving DecidableEq

structure Blocklist where
  exact : HashMap Str SourceId := ∅
  /-- `*.example.com` style rules, stored as the bare parent domain. -/
  wildcards : HashMap Str SourceId := ∅
  allow : Finset Str := ∅
  allowWildcards : Finset Str := ∅
  /-- `SourceId` indexes into this. -/
  sources : List SourceStat := []

namespace Blocklist

def len (bl : Blocklist) : ℕ := bl.exact.len + bl.wildcards.len

def sourceName (bl : Blocklist) (id : SourceId) : Str :=
  match bl.sources[id.toNat]? with
  | some s => s.name
  | none => "unknown".toList

def intern (bl : Blocklist) (name : Str) : SourceId × Blocklist :=
  match bl.sources.findIdx? (·.name == name) with
  | some i => (UInt16.ofNat i, bl)
  | none =>
    -- clamped at `SourceId::MAX` sources instead of wrapping
    if bl.sources.length ≥ 65535 then (65534, bl)
    else (UInt16.ofNat bl.sources.length, { bl with sources := bl.sources ++ [⟨name, 0⟩] })

/-- The loop shared by `lookup` and `is_allowed`: `a.b.example.com` tries `b.example.com`,
`example.com`, and so on, and stops at an empty remainder. -/
def climb {α : Type} (get : Str → Option α) : Str → Option α
  | [] => none
  | c :: rest =>
    if c = '.' then
      if rest = [] then none
      else match get rest with
        | some v => some v
        | none => climb get rest
    -- `rest.find('.')` skips to the next dot
    else climb get rest

def isAllowed (bl : Blocklist) (domain : Str) : Bool :=
  if domain ∈ bl.allow then true
  else if domain ∈ bl.allowWildcards then true
  else (climb (fun rest => if rest ∈ bl.allowWildcards then some () else none) domain).isSome

/-- The name of the list that blocked `domain`. -/
def lookup (bl : Blocklist) (domain : Str) : Option Str :=
  if bl.isAllowed domain then none
  else match bl.exact.lookup domain with
    | some src => some (bl.sourceName src)
    | none =>
      match bl.wildcards.lookup domain with
      | some src => some (bl.sourceName src)
      | none => (climb (fun rest => bl.wildcards.lookup rest) domain).map bl.sourceName

def addBlock (bl : Blocklist) (entry : Str) (source : SourceId) : Blocklist :=
  match normalize entry with
  | some (.exact d) => { bl with exact := bl.exact.orInsert d source }
  | some (.wildcard d) => { bl with wildcards := bl.wildcards.orInsert d source }
  | none => bl

def addAllow (bl : Blocklist) (entry : Str) : Blocklist :=
  match normalize entry with
  | some (.exact d) => { bl with allow := insert d bl.allow }
  | some (.wildcard d) => { bl with allowWildcards := insert d bl.allowWildcards }
  | none => bl

/-- First words that make a line a hosts-file line. -/
def hostsMarkers : List Str :=
  ["0.0.0.0".toList, "127.0.0.1".toList, "::".toList, "::1".toList, "0.0.0.0.0".toList]

/-- Names a hosts file carries for the machine itself. -/
def isLocalName (domain : Str) : Bool :=
  Str.eqIgnoreAsciiCase domain "localhost".toList ||
    Str.eqIgnoreAsciiCase domain "localhost.localdomain".toList ||
    Str.eqIgnoreAsciiCase domain "broadcasthost".toList

/-- `*.{d}` -/
def wildcardText (d : Str) : Str := "*.".toList ++ d

/-- The body of the loop in `ingest`. -/
def ingestLine (bl : Blocklist) (sourceId : SourceId) (allow : Bool) (raw : Str) : Blocklist :=
  let line := Str.trim (raw.takeWhile fun c => c ≠ '#' ∧ c ≠ '!')
  if line = [] then bl
  else match parseAdblock line with
    | some (.block d) =>
      if !allow then bl.addBlock (wildcardText d) sourceId else bl.addAllow (wildcardText d)
    -- an exception is an allow rule regardless of which list it arrived on
    | some (.exception d) => bl.addAllow (wildcardText d)
    | none =>
      match Str.splitWhitespace line with
      | [] => bl
      | first :: fields =>
        if first ∈ hostsMarkers then
          fields.foldl (fun bl domain =>
            if isLocalName domain then bl
            else if allow then bl.addAllow domain
            else bl.addBlock domain sourceId) bl
        else if fields = [] then
          if allow then bl.addAllow first else bl.addBlock first sourceId
        else bl

/-- Returns how many entries were added, and the matcher. -/
def ingest (bl : Blocklist) (contents sourceName : Str) (allow : Bool) : ℕ × Blocklist :=
  let count (bl : Blocklist) := if allow then bl.allow.card + bl.allowWildcards.card else bl.len
  let before := count bl
  let (sourceId, bl) := if allow then (0, bl) else bl.intern sourceName
  let bl := (Str.lines contents).foldl (fun bl raw => bl.ingestLine sourceId allow raw) bl
  let added := count bl - before
  if !allow then
    (added, { bl with sources := bl.sources.modify sourceId.toNat fun stat =>
      { stat with entries := stat.entries + added } })
  else (added, bl)

end Blocklist

end Netwatch
