import Netwatch.Dns.Genuine
import Netwatch.Dns.Refusal

/-!
# One log row per answer

The call to `log` ends each branch of `handle_inner`. A wait for an upstream that outlasts the
request budget drops the rest of the branch, and the client is answered all the same.

## Main definitions

- `events` — the events a request sends to the writer
- `LoggedOnce` — a reply comes with one event, about this request and the path it took
- `InBudget` — the request is answered from here, or an upstream is heard in time

## Main results

- `loggedOnce_iff` — an answered query is logged exactly when the budget did not run out
-/

namespace Netwatch.Dns

open RustStd Hickory

def Action.event : Action → Option QueryEvent
  | .send event => some event
  | _ => none

def events (out : Served) : List QueryEvent := out.actions.filterMap Action.event

/-- SERVFAIL survives encoding; its code needs no extended bits. -/
def KeepsServFail (codec : Codec) : Prop :=
  ∀ m bytes, codec.toVec m = some bytes → m.metadata.responseCode = .servFail →
    ∃ m', codec.fromVec bytes = some m' ∧ m'.metadata.responseCode = .servFail

variable (r : Resolver) (env : Env) (s : State)

/-- The cache has a live answer to the request. -/
def CacheHit (msg : Message) (query : Query) : Prop :=
  (r.lookupCache env s (Key.fromRequest msg (questionName env.codec query))).1.isSome = true

/-- Nothing of ours answers the request, and the reply it gets has this code. -/
structure Replied (msg : Message) (query : Query) (reply : Bytes) (code : ResponseCode) : Prop where
  miss : ¬ Intercepted r env s query
  cold : ¬ CacheHit r env s msg query
  decoded : ∃ m, env.codec.fromVec reply = some m ∧ m.metadata.responseCode = code

/-- The status that goes with the path a request takes and the reply it gets. -/
inductive PathStatus (msg : Message) (query : Query) (reply : Bytes) : QueryStatus → Prop
  | blocked (h : Intercepted r env s query) : PathStatus msg query reply .blocked
  | cached (hmiss : ¬ Intercepted r env s query) (h : CacheHit r env s msg query) :
      PathStatus msg query reply .cached
  | forwarded (h : Replied r env s msg query reply .noError) : PathStatus msg query reply .forwarded
  | nxDomain (h : Replied r env s msg query reply .nxDomain) : PathStatus msg query reply .nxDomain
  | refused (h : Replied r env s msg query reply .refused) : PathStatus msg query reply .refused
  | servFail (code : ResponseCode) (h : Replied r env s msg query reply code)
      (hother : code ≠ .noError ∧ code ≠ .nxDomain ∧ code ≠ .refused) :
      PathStatus msg query reply .servFail

/-- An event that names the client and the question. -/
structure QueryEvent.About (e : QueryEvent) (query : Query) (client : IpAddr) : Prop where
  clientIp : e.clientIp = client.toText
  domain : e.domain = questionName env.codec query
  qtype : e.qtype = env.codec.recordTypeText query.queryType

/-- A reply comes with one event, which is about this request. -/
def LoggedOnce (request : Bytes) (msg : Message) (query : Query) (client : SocketAddr) : Prop :=
  ∀ reply, (r.handle env s request client).reply = some reply →
    ∃ event, events (r.handle env s request client) = [event] ∧
      event.About env query client.ip ∧ PathStatus r env s msg query reply event.status

/-- The canary, the blocklist or the cache answers, or the upstreams come to a result within
`request_timeout_ms`. -/
def InBudget (request : Bytes) (msg : Message) (query : Query) : Prop :=
  Intercepted r env s query ∨ CacheHit r env s msg query ∨
    (forward env.codec r.cfg env.net request msg).1 ≤ r.cfg.requestTimeoutMs.toNat

variable {r env s}

/-- The code gives every reply the status of the table. -/
theorem pathStatus_statusOf {msg : Message} {query : Query} {reply : Bytes} {code : ResponseCode}
    (h : Replied r env s msg query reply code) :
    PathStatus r env s msg query reply (Resolver.statusOf code) := by
  cases code with
  | noError => exact .forwarded h
  | nxDomain => exact .nxDomain h
  | refused => exact .refused h
  | formErr => exact .servFail .formErr h (by decide)
  | servFail => exact .servFail .servFail h (by decide)
  | other code => exact .servFail (.other code) h ⟨nofun, nofun, nofun⟩

/-- What `forward` returns can be decoded. -/
theorem decodes_of_forward {request raw : Bytes} {msg : Message}
    (h : (forward env.codec r.cfg env.net request msg).2 = .ok raw) :
    ∃ m, env.codec.fromVec raw = some m := by
  rw [ok_iff_toOption, forward, forwardTo_toOption] at h
  obtain ⟨_, u, _, _, hdelivered, _⟩ := List.findSome?_eq_some_iff.mp h
  have haccepts := (Option.filter_eq_some_iff.mp hdelivered).2
  rw [accepts, Option.any_eq_true] at haccepts
  obtain ⟨m, hm, _⟩ := haccepts
  exact ⟨m, hm⟩

section Paths

variable (request : Bytes) {msg : Message} {query : Query} (client : IpAddr)

theorem answer_of_intercepted (msg : Message) (h : Intercepted r env s query) :
    ∃ out event, r.answer env s request msg query client = .done out ∧ events out = [event] ∧
      event.About env query client ∧ event.status = .blocked := by
  simp only [Resolver.answer]
  by_cases hcanary : r.disableFirefoxDoh = true ∧ questionName env.codec query = firefoxCanary
  · rw [if_pos hcanary]
    exact ⟨_, _, rfl, rfl, ⟨rfl, rfl, rfl⟩, rfl⟩
  · obtain ⟨hname, hblocked⟩ := h.resolve_left hcanary
    obtain ⟨list, hlist⟩ := Option.isSome_iff_exists.mp hblocked
    rw [if_neg hcanary, if_neg hname, hlist]
    exact ⟨_, _, rfl, rfl, ⟨rfl, rfl, rfl⟩, rfl⟩

theorem answer_of_not_intercepted (h : ¬ Intercepted r env s query) :
    r.answer env s request msg query client =
      r.resolve env s request msg (questionName env.codec query) query.queryType client := by
  rw [Intercepted, not_or] at h
  simp only [Resolver.answer]
  rw [if_neg h.1]
  by_cases hname : questionName env.codec query = []
  · rw [if_pos hname]
  · have hfree : s.blocklist.lookup (questionName env.codec query) = none :=
      Option.not_isSome_iff_eq_none.mp fun hblocked => h.2 ⟨hname, hblocked⟩
    rw [if_neg hname, hfree]

theorem resolve_of_hit (h : CacheHit r env s msg query) :
    ∃ out event, r.resolve env s request msg (questionName env.codec query) query.queryType
        client = .done out ∧ events out = [event] ∧ event.About env query client ∧
      event.status = .cached := by
  obtain ⟨hit, hhit⟩ := Option.isSome_iff_exists.mp h
  simp only [Resolver.resolve, hhit]
  exact ⟨_, _, rfl, rfl, ⟨rfl, rfl, rfl⟩, rfl⟩

/-- A request that is neither stopped nor cached waits for `forward`; what follows the wait
logs the code of the reply. -/
theorem resolve_of_cold (hcodec : KeepsServFail env.codec)
    (h : ¬ CacheHit r env s msg query) :
    ∃ st out event, r.resolve env s request msg (questionName env.codec query)
        query.queryType client =
          .waiting st [.forward request] (forward env.codec r.cfg env.net request msg).1 out ∧
      events out = [event] ∧ event.About env query client ∧
      ∀ reply, out.reply = some reply → ∃ m, env.codec.fromVec reply = some m ∧
        event.status = Resolver.statusOf m.metadata.responseCode := by
  have hmiss : (r.lookupCache env s (Key.fromRequest msg (questionName env.codec query))).1 =
      none := Option.not_isSome_iff_eq_none.mp h
  simp only [Resolver.resolve, hmiss, Resolver.ask]
  cases hforward : (forward env.codec r.cfg env.net request msg).2 with
  | ok raw =>
    obtain ⟨m, hm⟩ := decodes_of_forward hforward
    simp only [Resolver.relay, hm]
    refine ⟨_, _, _, rfl, rfl, ⟨rfl, rfl, rfl⟩, fun reply hreply => ?_⟩
    cases hreply
    exact ⟨m, hm, rfl⟩
  | error e =>
    refine ⟨_, _, _, rfl, rfl, ⟨rfl, rfl, rfl⟩, fun reply hreply => ?_⟩
    obtain ⟨m, hm, hcode⟩ := hcodec _ reply hreply rfl
    refine ⟨m, hm, ?_⟩
    rw [hcode]
    rfl

end Paths

theorem intercepted_count (f : Stats → Stats) {query : Query} :
    Intercepted r env (s.count f) query ↔ Intercepted r env s query := Iff.rfl

theorem cacheHit_count (f : Stats → Stats) {msg : Message} {query : Query} :
    CacheHit r env (s.count f) msg query ↔ CacheHit r env s msg query := by
  rw [CacheHit, CacheHit]
  cases Key.fromRequest msg (questionName env.codec query) with
  | none => exact Iff.rfl
  | some key =>
    simp only [Resolver.lookupCache]
    split <;> exact Iff.rfl

section Branches

variable {request : Bytes} {msg : Message} {query : Query}
  (hmsg : env.codec.fromVec request = some msg)
  (hstandard : msg.metadata.messageType = .query ∧ msg.metadata.opCode = .query)
  (hquery : msg.queries.head? = some query) (client : SocketAddr)

include hmsg hstandard hquery

theorem loggedOnce_of_intercepted (hstop : Intercepted r env s query) :
    LoggedOnce r env s request msg query client := by
  obtain ⟨out, event, hdone, hevents, habout, hstatus⟩ :=
    answer_of_intercepted request client.ip msg
      ((intercepted_count fun st => { st with total := st.total + 1 }).mpr hstop)
  have hhandle : r.handle env s request client = out := by
    rw [Resolver.handle, Resolver.handleInner_standard hmsg hstandard hquery client, hdone]
  intro reply _
  rw [hhandle]
  exact ⟨event, hevents, habout, hstatus ▸ .blocked hstop⟩

theorem handleInner_of_not_intercepted (hmiss : ¬ Intercepted r env s query) :
    r.handleInner env s request client =
      r.resolve env (s.count fun st => { st with total := st.total + 1 }) request msg
        (questionName env.codec query) query.queryType client.ip := by
  rw [Resolver.handleInner_standard hmsg hstandard hquery client]
  exact answer_of_not_intercepted request client.ip
    fun hstop => hmiss ((intercepted_count _).mp hstop)

theorem loggedOnce_of_hit (hmiss : ¬ Intercepted r env s query)
    (hhit : CacheHit r env s msg query) : LoggedOnce r env s request msg query client := by
  obtain ⟨out, event, hdone, hevents, habout, hstatus⟩ :=
    resolve_of_hit request client.ip
      ((cacheHit_count fun st => { st with total := st.total + 1 }).mpr hhit)
  have hhandle : r.handle env s request client = out := by
    rw [Resolver.handle, handleInner_of_not_intercepted hmsg hstandard hquery client hmiss, hdone]
  intro reply _
  rw [hhandle]
  exact ⟨event, hevents, habout, hstatus ▸ .cached hmiss hhit⟩

/-- A request that waits for the upstreams: SERVFAIL comes without an event if the budget runs
out. -/
theorem loggedOnce_cold_iff (hcodec : KeepsServFail env.codec)
    (hmiss : ¬ Intercepted r env s query) (hcold : ¬ CacheHit r env s msg query) :
    LoggedOnce r env s request msg query client ↔
      (forward env.codec r.cfg env.net request msg).1 ≤ r.cfg.requestTimeoutMs.toNat ∨
        encode env.codec (errorResponse msg .servFail r.cfg.upstreamUdpPayload) = none := by
  have hinner := handleInner_of_not_intercepted hmsg hstandard hquery client hmiss
  obtain ⟨st, out, event, hwaiting, hevents, habout, hstatus⟩ :=
    resolve_of_cold request client.ip hcodec
      (fun h => hcold ((cacheHit_count fun st => { st with total := st.total + 1 }).mp h))
  rw [hwaiting] at hinner
  by_cases htime : (forward env.codec r.cfg env.net request msg).1 ≤ r.cfg.requestTimeoutMs.toNat
  -- an upstream answers, or all have failed, within the budget
  · have hhandle : r.handle env s request client = out := by
      simp only [Resolver.handle, hinner]
      exact if_pos htime
    simp only [htime, true_or, iff_true]
    intro reply hreply
    rw [hhandle] at hreply ⊢
    obtain ⟨m, hm, hcode⟩ := hstatus reply hreply
    exact ⟨event, hevents, habout, hcode ▸ pathStatus_statusOf ⟨hmiss, hcold, m, hm, rfl⟩⟩
  · -- the budget runs out during the wait: only the request handed to `forward` remains
    have hhandle : r.handle env s request client =
        r.timedOut env st [.forward request] request := by
      simp only [Resolver.handle, hinner]
      exact if_neg htime
    have hreply : (r.handle env s request client).reply =
        encode env.codec (errorResponse msg .servFail r.cfg.upstreamUdpPayload) := by
      rw [hhandle, Resolver.timedOut, hmsg]
      rfl
    have hnone : events (r.handle env s request client) = [] := by
      rw [hhandle]
      rfl
    simp only [htime, false_or]
    constructor
    · intro hlogged
      rw [← hreply, Option.eq_none_iff_forall_ne_some]
      intro reply hsome
      obtain ⟨event, hevents, _⟩ := hlogged reply hsome
      rw [hnone] at hevents
      cases hevents
    · intro hencode reply hsome
      rw [hreply, hencode] at hsome
      cases hsome

end Branches

/-- A standard query is logged once with its reply exactly when the budget does not run out
on it; otherwise the client gets SERVFAIL, if that can be encoded, and the log gets nothing. -/
theorem loggedOnce_iff (hcodec : KeepsServFail env.codec) {request : Bytes} {msg : Message}
    {query : Query} (hmsg : env.codec.fromVec request = some msg)
    (hstandard : msg.metadata.messageType = .query ∧ msg.metadata.opCode = .query)
    (hquery : msg.queries.head? = some query) (client : SocketAddr) :
    LoggedOnce r env s request msg query client ↔
      InBudget r env s request msg query ∨
        encode env.codec (errorResponse msg .servFail r.cfg.upstreamUdpPayload) = none := by
  rw [InBudget]
  by_cases hstop : Intercepted r env s query
  · simp only [hstop, true_or, iff_true]
    exact loggedOnce_of_intercepted hmsg hstandard hquery client hstop
  · by_cases hhit : CacheHit r env s msg query
    · simp only [hhit, true_or, or_true, iff_true]
      exact loggedOnce_of_hit hmsg hstandard hquery client hstop hhit
    · simp only [hstop, hhit, false_or]
      exact loggedOnce_cold_iff hmsg hstandard hquery client hcodec hstop hhit

/-! ### A slow upstream -/

/-- A budget shorter than one upstream attempt. -/
def impatientResolver : Resolver := .new { dns := { requestTimeoutMs := 1000 } } none

def servFailBytes : Bytes := (exampleQueryBytes.set 2 0x81).set 3 0x82

def servFailTable : List (Bytes × Message) :=
  [(exampleQueryBytes, exampleQuery), (servFailBytes, errorResponse exampleQuery .servFail 1232)]

theorem keepsServFail_ofTable {table : List (Bytes × Message)}
    (hnodup : (table.map Prod.fst).Nodup) : KeepsServFail (.ofTable table) :=
  fun m _ hbytes hcode => ⟨m, Codec.fromVec_of_toVec_ofTable hnodup hbytes, hcode⟩

theorem loggedOnce_iff_example :
    LoggedOnce sampleResolver (silentEnv servFailTable) denyAds exampleQueryBytes exampleQuery
        ⟨exampleName, .a, .internet⟩ anyClient ↔
      InBudget sampleResolver (silentEnv servFailTable) denyAds exampleQueryBytes exampleQuery
          ⟨exampleName, .a, .internet⟩ ∨
        encode (silentEnv servFailTable).codec
          (errorResponse exampleQuery .servFail sampleResolver.cfg.upstreamUdpPayload) = none :=
  loggedOnce_iff (keepsServFail_ofTable (by decide)) (by decide) (by decide) (by decide) anyClient

/-- The upstreams stay silent: the client gets SERVFAIL and nothing is logged. -/
theorem timeout_not_logged :
    (impatientResolver.handle (silentEnv servFailTable) denyAds exampleQueryBytes anyClient).reply =
        some servFailBytes ∧
      events (impatientResolver.handle (silentEnv servFailTable) denyAds exampleQueryBytes
        anyClient) = [] ∧
      ¬ LoggedOnce impatientResolver (silentEnv servFailTable) denyAds exampleQueryBytes
        exampleQuery ⟨exampleName, .a, .internet⟩ anyClient := by
  have hreply : (impatientResolver.handle (silentEnv servFailTable) denyAds exampleQueryBytes
      anyClient).reply = some servFailBytes := rfl
  have hnone : events (impatientResolver.handle (silentEnv servFailTable) denyAds
      exampleQueryBytes anyClient) = [] := rfl
  refine ⟨hreply, hnone, fun hlogged => ?_⟩
  obtain ⟨event, hevents, _⟩ := hlogged servFailBytes hreply
  rw [hnone] at hevents
  cases hevents

end Netwatch.Dns
