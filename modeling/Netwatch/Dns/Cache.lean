import Netwatch.Hickory.Message
import Netwatch.RustStd.HashMap
import Mathlib.Data.List.Sort

/-!
# The answer cache

`Cache` of `dns/cache.rs`. Every call that reads the clock takes the reading as an argument,
in nanoseconds; `insert` reads it twice, once to evict and once for the new entry.

## Main definitions

- `Key.fromRequest` — what of a request selects an entry
- `Cache.get` — a hit, with every TTL counted down
- `Cache.insert` — store an upstream answer, or decline to
- `Cache.evict` — make room
-/

namespace Netwatch

open RustStd Hickory

namespace Dns

/-- Everything about a request that can change the answer it deserves. -/
structure Key where
  name : Str
  qtype : RecordType
  qclass : DnsClass
  dnssecOk : Bool
  checkingDisabled : Bool
  deriving DecidableEq

def Key.fromRequest (msg : Message) (name : Str) : Option Key :=
  msg.queries.head?.map fun query =>
    { name
      qtype := query.queryType
      qclass := query.queryClass
      dnssecOk := msg.edns.any Edns.dnssecOk
      checkingDisabled := msg.metadata.checkingDisabled }

structure Entry where
  answers : List Record
  authorities : List Record
  /-- OPT is stripped before storing. -/
  additionals : List Record
  responseCode : ResponseCode
  authoritative : Bool
  inserted : ℕ
  expires : ℕ
  deriving DecidableEq

structure CachedAnswer where
  answers : List Record
  authorities : List Record
  additionals : List Record
  responseCode : ResponseCode
  authoritative : Bool
  deriving DecidableEq

structure Cache where
  map : HashMap Key Entry := ∅
  maxEntries : ℕ
  minTtl : UInt32
  maxTtl : UInt32
  hits : ℕ := 0
  misses : ℕ := 0

/-- `Duration::from_secs` in nanoseconds. -/
def secs (n : ℕ) : ℕ := n * 1000000000

/-- `u32::saturating_sub` -/
def saturatingSub (a b : UInt32) : UInt32 := UInt32.ofNat (a.toNat - b.toNat)

def ageRecord (elapsed : UInt32) (r : Record) : Record :=
  { r with ttl := max (saturatingSub r.ttl elapsed) 1 }

/-- Each record ages by the same time but keeps its own TTL. -/
def age (elapsed : UInt32) (records : List Record) : List Record := records.map (ageRecord elapsed)

namespace Cache

def new (maxEntries : ℕ) (minTtl maxTtl : UInt32) : Cache :=
  { maxEntries := max maxEntries 1, minTtl, maxTtl }

def len (c : Cache) : ℕ := c.map.len

/-- The answer an entry gives at `now`. -/
def answerFrom (entry : Entry) (now : ℕ) : CachedAnswer :=
  -- `as_secs() as u32` keeps the low 32 bits
  let elapsed := UInt32.ofNat ((now - entry.inserted) / secs 1)
  { answers := age elapsed entry.answers
    authorities := age elapsed entry.authorities
    additionals := age elapsed entry.additionals
    responseCode := entry.responseCode
    authoritative := entry.authoritative }

def get (c : Cache) (key : Key) (now : ℕ) : Option CachedAnswer × Cache :=
  match c.map.lookup key with
  | none => (none, c)
  | some entry =>
    if entry.expires ≤ now then
      (none, { c with map := c.map.erase key, misses := c.misses + 1 })
    else (some (answerFrom entry now), { c with hits := c.hits + 1 })

def dropExpired (c : Cache) (now : ℕ) : Cache :=
  { c with map := HashMap.retain c.map fun _ e => e.expires > now }

/-- The entries in the order they expire. -/
def byExpiry (c : Cache) : List (Key × ℕ) :=
  (c.map.entries.map fun e => (e.1, e.2.expires)).mergeSort fun a b => a.2 ≤ b.2

/-- Drop the `target` entries closest to expiry. -/
def shed (c : Cache) (target : ℕ) : Cache :=
  { c with map := (c.byExpiry.take target).foldl (fun m e => m.erase e.1) c.map }

/-- Drop everything expired; if that frees nothing, shed a tenth. -/
def evict (c : Cache) (now : ℕ) : Cache :=
  let kept := c.dropExpired now
  if kept.len < c.len then kept else kept.shed (kept.len / 10 + 1)

def sweep (c : Cache) (now : ℕ) : Cache := c.dropExpired now

def clear (c : Cache) : Cache := { c with map := ∅ }

end Cache

/-- The TTLs that bound the life of an answer. -/
def boundingTtls (message : Message) : List UInt32 :=
  (message.answers ++ message.authorities).map Record.ttl

def shortestTtl (message : Message) : Option UInt32 := (boundingTtls message).min?

/-- How long an answer is kept, in seconds, if it is kept at all. -/
def lifetime (minTtl maxTtl : UInt32) (message : Message) : Option UInt32 :=
  if message.metadata.responseCode = .noError ∨ message.metadata.responseCode = .nxDomain then
    match shortestTtl message with
    -- no answers and no SOA: nothing to base a lifetime on
    | none => none
    | some shortest =>
      if shortest = 0 ∨ shortest < minTtl then none else some (min shortest maxTtl)
  else none

def storedAdditionals (message : Message) : List Record :=
  message.additionals.filter fun r => r.recordType ≠ .opt

def entryOf (message : Message) (lifetime : UInt32) (now : ℕ) : Entry where
  answers := message.answers
  authorities := message.authorities
  additionals := storedAdditionals message
  responseCode := message.metadata.responseCode
  authoritative := message.metadata.authoritative
  inserted := now
  expires := now + secs lifetime.toNat

namespace Cache

/-- Returns whether the answer was stored, and the cache. -/
def insert (c : Cache) (key : Key) (message : Message) (evictNow now : ℕ) : Bool × Cache :=
  match lifetime c.minTtl c.maxTtl message with
  | none => (false, c)
  | some lifetime =>
    let c := if c.len ≥ c.maxEntries then c.evict evictNow else c
    (true, { c with map := c.map.insert key (entryOf message lifetime now) })

end Cache

end Dns

end Netwatch
