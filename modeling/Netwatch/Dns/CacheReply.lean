import Netwatch.Dns.CacheTtl
import Netwatch.Dns.Logged

/-!
# Answers from the cache

The cache keeps parts of an upstream reply, and a hit puts them into an envelope made for the
request at hand. Header bit by header bit and section by section: what is taken from the
request, what from the reply, and what is lost on the way.

## Main definitions

- `Agrees` — a reply is the upstream's answer in the envelope of another request

## Main results

- `agrees_cachedResponse_iff` — the cache answers as the upstream did unless AD was set
-/

namespace Netwatch.Dns

open RustStd Hickory

/-- The same records in the same order, whatever their TTLs. -/
def SameRecords (records records' : List Record) : Prop :=
  (records.map fun r => { r with ttl := 0 }) = records'.map fun r => { r with ttl := 0 }

instance (records records' : List Record) : Decidable (SameRecords records records') :=
  inferInstanceAs (Decidable (_ = _))

/-- `resp` answers `request` as the upstream reply `m` did the request it was sent for. -/
structure Agrees (request m resp : Message) : Prop where
  id : resp.metadata.id = request.metadata.id
  queries : resp.queries = request.queries
  recursionDesired : resp.metadata.recursionDesired = request.metadata.recursionDesired
  checkingDisabled : resp.metadata.checkingDisabled = request.metadata.checkingDisabled
  opt : resp.edns.isSome = request.edns.isSome
  responseCode : resp.metadata.responseCode = m.metadata.responseCode
  authoritative : resp.metadata.authoritative = m.metadata.authoritative
  authenticData : resp.metadata.authenticData = m.metadata.authenticData
  answers : SameRecords resp.answers m.answers
  authorities : SameRecords resp.authorities m.authorities
  additionals : SameRecords (resp.additionals.filter fun r => r.recordType ≠ .opt)
    (m.additionals.filter fun r => r.recordType ≠ .opt)

theorem sameRecords_age (elapsed : UInt32) (records : List Record) :
    SameRecords (age elapsed records) records := by
  rw [SameRecords, age, List.map_map]
  rfl

/-- Counting down changes no record's type. -/
theorem filter_age (elapsed : UInt32) (records : List Record) :
    (age elapsed records).filter (fun r => r.recordType ≠ .opt) =
      age elapsed (records.filter fun r => r.recordType ≠ .opt) := by
  rw [age, age, List.filter_map]
  rfl

/-- Whatever the entry kept is put back; AD is not among it. -/
theorem agrees_answerFrom_iff {r : Resolver} {request m : Message} (life : UInt32)
    (inserted now : ℕ) :
    Agrees request m
        (r.cachedResponse request (Cache.answerFrom (entryOf m life inserted) now)) ↔
      m.metadata.authenticData = false := by
  constructor
  · intro h
    exact h.authenticData.symm
  · intro had
    constructor
    case id => rfl
    case queries => rfl
    case recursionDesired => rfl
    case checkingDisabled => rfl
    case opt =>
      show (responseEdns request _).isSome = _
      rw [responseEdns, Option.isSome_map]
    case responseCode => rfl
    case authoritative => rfl
    case authenticData => exact had.symm
    case answers => exact sameRecords_age _ _
    case authorities => exact sameRecords_age _ _
    case additionals =>
      show SameRecords ((age _ (storedAdditionals m)).filter _) _
      rw [filter_age, storedAdditionals, List.filter_filter]
      simp only [Bool.and_self]
      exact sameRecords_age _ _

section

variable {r : Resolver} {env : Env} {s : State} {request : Bytes} {msg : Message}
  {query : Query}

/-- A request that is not stopped and finds a live entry is answered from it. -/
theorem reply_of_hit (hmsg : env.codec.fromVec request = some msg)
    (hstandard : msg.metadata.messageType = .query ∧ msg.metadata.opCode = .query)
    (hquery : msg.queries.head? = some query) (hstop : ¬ Intercepted r env s query)
    (hcache : r.cfg.cache = true) {key : Key}
    (hkey : Key.fromRequest msg (questionName env.codec query) = some key) {hit : CachedAnswer}
    (hhit : (s.cache.get key env.arrival).1 = some hit) (client : SocketAddr) :
    (r.handle env s request client).reply = encode env.codec (r.cachedResponse msg hit) := by
  have hfound : (r.lookupCache env (s.count fun st => { st with total := st.total + 1 })
      (Key.fromRequest msg (questionName env.codec query))).1 = some hit := by
    rw [hkey]
    simp only [Resolver.lookupCache, hcache, if_true]
    exact hhit
  have hinner := Resolver.handleInner_standard (r := r) (s := s) hmsg hstandard hquery client
  rw [answer_of_not_intercepted request client.ip
    (fun h => hstop ((intercepted_count _).mp h))] at hinner
  simp only [Resolver.resolve, hfound] at hinner
  rw [Resolver.handle, hinner]

/-- After any calls to the cache: the reply made from the entry of the upstream reply `m`
agrees with `m` exactly when `m` does not have AD set. -/
theorem agrees_cachedResponse_iff {maxEntries : ℕ} {minTtl maxTtl : UInt32}
    {ops : List CacheOp} {t : ℕ} (hrun : Run maxEntries minTtl maxTtl ops t s.cache)
    (hmsg : env.codec.fromVec request = some msg)
    (hstandard : msg.metadata.messageType = .query ∧ msg.metadata.opCode = .query)
    (hquery : msg.queries = [query]) (hstop : ¬ Intercepted r env s query)
    (hcache : r.cfg.cache = true) {key : Key}
    (hkey : Key.fromRequest msg (questionName env.codec query) = some key)
    {m : Message} {inserted : ℕ} (hm : latest minTtl maxTtl ops key = some (m, inserted))
    {hit : CachedAnswer} (hhit : (s.cache.get key env.arrival).1 = some hit)
    (client : SocketAddr) :
    (r.handle env s request client).reply = encode env.codec (r.cachedResponse msg hit) ∧
      (Agrees msg m (r.cachedResponse msg hit) ↔ m.metadata.authenticData = false) := by
  refine ⟨reply_of_hit hmsg hstandard (by rw [hquery]; rfl) hstop hcache hkey hhit client, ?_⟩
  obtain ⟨entry, hlookup, _, rfl⟩ := get_eq_some hhit
  obtain ⟨m', inserted', life, hlatest, _, _, rfl⟩ := hrun.mirrors.entry hlookup
  rw [hm] at hlatest
  cases hlatest
  exact agrees_answerFrom_iff life inserted env.arrival

end

/-! ### A validated answer -/

def cachedKey : Key := ⟨"example.com".toList, .a, .internet, false, false⟩

/-- An upstream's answer to the example query, validated there or not. -/
def upstreamAnswer (ad : Bool) : Message where
  metadata :=
    { id := 0x1234, messageType := .response, opCode := .query, recursionDesired := true
      recursionAvailable := true, authenticData := ad }
  queries := exampleQuery.queries
  answers := [⟨exampleName, .internet, 300, .a (Ipv4Addr.ofOctets 192 0 2 1)⟩]

def storeAnswer (ad : Bool) : CacheOp := .insert cachedKey (upstreamAnswer ad) 0 0

def warmState (ad : Bool) : State where
  blocklist := {}
  cache := (Cache.new 20000 30 86400).apply (storeAnswer ad)

theorem run_storeAnswer (ad : Bool) :
    Run 20000 30 86400 [storeAnswer ad] 0 (warmState ad).cache :=
  Run.step (storeAnswer ad) ∅ (Run.start 0) (List.Perm.refl _)
    (by simp [storeAnswer, CacheOp.readings])

/-- What is handed out ten seconds later. -/
def agedAnswer : CachedAnswer where
  answers := [⟨exampleName, .internet, 290, .a (Ipv4Addr.ofOctets 192 0 2 1)⟩]
  authorities := []
  additionals := []
  responseCode := .noError
  authoritative := false

def cachedReplyBytes : Bytes :=
  [0x12, 0x34, 0x81, 0x80, 0, 1, 0, 1, 0, 0, 0, 0,
    7, 101, 120, 97, 109, 112, 108, 101, 3, 99, 111, 109, 0, 0, 1, 0, 1,
    0xc0, 0x0c, 0, 1, 0, 1, 0, 0, 1, 0x22, 0, 4, 192, 0, 2, 1]

def cachedTable : List (Bytes × Message) :=
  [(exampleQueryBytes, exampleQuery),
    (cachedReplyBytes, sampleResolver.cachedResponse exampleQuery agedAnswer)]

/-- The example query arrives ten seconds after the answer was stored. -/
def laterEnv : Env := { silentEnv cachedTable with arrival := secs 10 }

theorem not_intercepted_warmState (ad : Bool) :
    ¬ Intercepted sampleResolver laterEnv (warmState ad) ⟨exampleName, .a, .internet⟩ := by
  rintro (⟨_, hcanary⟩ | ⟨_, hblocked⟩)
  · exact absurd hcanary (by decide)
  · have hfree : (({} : Blocklist).lookup "example.com".toList).isSome = false := by decide
    exact Bool.false_ne_true (hfree.symm.trans hblocked)

theorem agrees_cachedResponse_iff_example :
    (sampleResolver.handle laterEnv (warmState false) exampleQueryBytes anyClient).reply =
        encode laterEnv.codec (sampleResolver.cachedResponse exampleQuery agedAnswer) ∧
      (Agrees exampleQuery (upstreamAnswer false)
          (sampleResolver.cachedResponse exampleQuery agedAnswer) ↔
        (upstreamAnswer false).metadata.authenticData = false) :=
  agrees_cachedResponse_iff (run_storeAnswer false) (by decide) (by decide) rfl
    (not_intercepted_warmState false) rfl rfl
    (show latest 30 86400 [storeAnswer false] cachedKey = some (upstreamAnswer false, 0) by decide)
    (by decide) anyClient

/-- An answer validated upstream comes from the cache without AD. -/
theorem cached_answer_loses_ad :
    Run 20000 30 86400 [storeAnswer true] 0 (warmState true).cache ∧
      latest 30 86400 [storeAnswer true] cachedKey = some (upstreamAnswer true, 0) ∧
      (sampleResolver.handle laterEnv (warmState true) exampleQueryBytes anyClient).reply =
        some cachedReplyBytes ∧
      (∃ resp, laterEnv.codec.fromVec cachedReplyBytes = some resp ∧
        ¬ Agrees exampleQuery (upstreamAnswer true) resp) := by
  refine ⟨run_storeAnswer true, by decide, ?_, _, rfl, fun h => ?_⟩
  · have hhit : ((warmState true).cache.get cachedKey laterEnv.arrival).1 = some agedAnswer := by
      decide
    have hkey : Key.fromRequest exampleQuery (questionName laterEnv.codec
        ⟨exampleName, .a, .internet⟩) = some cachedKey := by decide
    have hmsg : laterEnv.codec.fromVec exampleQueryBytes = some exampleQuery := by decide
    exact reply_of_hit hmsg (by decide) rfl (not_intercepted_warmState true) rfl hkey hhit anyClient
  · exact absurd h.authenticData (by decide)

end Netwatch.Dns
