import Netwatch.Blocklist.Matcher
import Netwatch.Dns.Cache
import Netwatch.Dns.Forward
import Netwatch.Netinfo

/-!
# Handling a request

`Resolver::handle` and `handle_inner` of `dns/mod.rs`. A request is answered at once or waits
for an upstream; what it does on the way (events for the database, devices seen, the request
handed to `forward`) is kept as a list of actions, and the state it shares with other requests
is passed through.

## Main definitions

- `handleInner` — one request, up to the point where it waits for an upstream
- `handle` — the same under the request budget
- `baseResponse`, `errorResponse`, `sinkhole` — the answers the resolver makes up
-/

namespace Netwatch.Dns

open RustStd Hickory

/-- TTL handed out with a sinkholed answer. -/
def blockTtl : UInt32 := 60

/-- Mozilla's DoH canary domain. -/
def firefoxCanary : Str := "use-application-dns.net".toList

def firefoxCanaryLabel : Str := "firefox-doh-canary".toList

structure Stats where
  total : ℕ := 0
  blocked : ℕ := 0
  cacheHits : ℕ := 0
  upstreamErrors : ℕ := 0
  denied : ℕ := 0
  udpOverloadDrops : ℕ := 0
  tcpRejections : ℕ := 0
  requestTimeouts : ℕ := 0
  deriving DecidableEq

inductive QueryStatus
  | forwarded
  | cached
  | blocked
  | nxDomain
  | servFail
  | refused
  deriving DecidableEq

/-- One logged query. -/
structure QueryEvent where
  ts : ℤ
  clientIp : Str
  domain : Str
  qtype : Str
  status : QueryStatus
  elapsedMs : Option UInt32
  answer : Option Str
  blocklist : Option Str
  deriving DecidableEq

/-- What a request sets off besides its reply. -/
inductive Action
  /-- The request is handed to `forward`. -/
  | forward (request : Bytes)
  | touchIp (client : IpAddr)
  | send (event : QueryEvent)
  | learnFromDns (message : Message)
  deriving DecidableEq

/-- What is fixed when the resolver is built. -/
structure Resolver where
  cfg : DnsConfig
  acl : Acl
  blockNxdomain : Bool
  disableFirefoxDoh : Bool

/-- What requests share. -/
structure State where
  blocklist : Blocklist
  cache : Cache
  stats : Stats := {}

/-- The surroundings of one request. -/
structure Env where
  codec : Codec
  /-- What the `i`-th configured upstream does. -/
  net : ℕ → Peer
  /-- The monotone clock when the request arrives, in nanoseconds. -/
  arrival : ℕ
  /-- `db::now`, the wall clock in seconds. -/
  wallClock : ℕ → ℤ
  /-- What other requests do to the shared state while this one waits. -/
  meanwhile : State → State

structure Served where
  reply : Option Bytes
  state : State
  actions : List Action

/-- Where a request is when it first has to wait, if it does. -/
inductive Progress
  | done (out : Served)
  /-- The state and the actions at the wait, its length in milliseconds, and what follows. -/
  | waiting (state : State) (actions : List Action) (elapsed : ℕ) (out : Served)

def State.count (s : State) (f : Stats → Stats) : State := { s with stats := f s.stats }

/-- `None` for a client that sent no OPT. -/
def responseEdns (request : Message) (ourMaxPayload : UInt16) : Option Edns :=
  request.edns.map fun reqEdns =>
    { ({} : Edns).setMaxPayload (min reqEdns.maxPayload ourMaxPayload) with
      version := 0
      dnssecOk := reqEdns.dnssecOk }

def baseResponse (request : Message) (ourMaxPayload : UInt16) : Message :=
  let resp := Message.response request.metadata.id .query
  { resp with
    metadata := { resp.metadata with
      recursionDesired := request.metadata.recursionDesired
      recursionAvailable := true
      checkingDisabled := request.metadata.checkingDisabled }
    queries := request.queries
    edns := responseEdns request ourMaxPayload }

def Message.withCode (m : Message) (code : ResponseCode) : Message :=
  { m with metadata := { m.metadata with responseCode := code } }

def errorResponse (request : Message) (code : ResponseCode) (ourMaxPayload : UInt16) : Message :=
  Message.withCode (baseResponse request ourMaxPayload) code

def encode (codec : Codec) (msg : Message) : Option Bytes := codec.toVec msg

/-- Condense the answer section for the dashboard. -/
def summarizeAnswers (codec : Codec) (msg : Message) : Option Str :=
  if msg.answers.isEmpty then none
  else
    let text (rec : Record) : Str := match rec.data with
      | .a addr => addr.toText
      | .aaaa addr => addr.toText
      | .cname name => codec.toAscii name
      | .ptr name => codec.toAscii name
      | .mx _ exchange => codec.toAscii exchange
      | .txt _ => "TXT".toList
      | other => codec.recordTypeText other.recordType
    let parts := (msg.answers.take 4).map text
    let more := if msg.answers.length > 4 then
      ['+' :: Nat.toDigits 10 (msg.answers.length - 4)] else []
    some (Str.join ", ".toList (parts ++ more))

/-- A question's name as the matcher and the cache see it. -/
def questionName (codec : Codec) (query : Query) : Str :=
  Str.toAsciiLowercase (Str.trimEndMatches '.' (codec.toAscii query.name))

namespace Resolver

def new (cfg : Config) (lan : Option Subnet) : Resolver :=
  -- validated during config load, so the fallback is not reached
  let acl := match Acl.parse cfg.dns.allowFrom with
    | .ok acl => acl
    | .error _ => ⟨[]⟩
  let acl := match lan with
    | some s => (acl.trustSubnet s.network s.prefixLen).2
    | none => acl
  { cfg := cfg.dns
    acl
    blockNxdomain := cfg.blocking.mode = "nxdomain".toList
    disableFirefoxDoh := cfg.blocking.disableFirefoxDoh }

/-- Whether this source may query at all, checked before the packet is parsed. -/
def allows (r : Resolver) (s : State) (client : IpAddr) : Bool × State :=
  if r.acl.allows client then (true, s)
  else (false, s.count fun st => { st with denied := st.denied + 1 })

/-- The answer for a blocked name. -/
def sinkhole (r : Resolver) (request : Message) (qtype : RecordType) : Message :=
  let resp := baseResponse request r.cfg.upstreamUdpPayload
  if r.blockNxdomain then Message.withCode resp .nxDomain
  else match request.queries.head?, qtype with
    | some query, .a => { resp with answers := [⟨query.name, .internet, blockTtl, .a 0⟩] }
    | some query, .aaaa => { resp with answers := [⟨query.name, .internet, blockTtl, .aaaa 0⟩] }
    | _, _ => resp

/-- NXDOMAIN, as Mozilla prescribes, whatever `blocking.mode` is. -/
def canaryResponse (r : Resolver) (request : Message) : Message :=
  errorResponse request .nxDomain r.cfg.upstreamUdpPayload

/-- The envelope is built from this request, the records come from the cache. -/
def cachedResponse (r : Resolver) (request : Message) (hit : CachedAnswer) : Message :=
  let resp := baseResponse request r.cfg.upstreamUdpPayload
  { resp with
    metadata := { resp.metadata with
      responseCode := hit.responseCode
      authoritative := hit.authoritative }
    answers := hit.answers
    authorities := hit.authorities
    additionals := hit.additionals }

/-- The device is touched, and the event goes to the writer. -/
def log (env : Env) (now : ℕ) (domain : Str) (qtype : RecordType) (client : IpAddr)
    (status : QueryStatus) (elapsedMs : Option UInt32) (answer blocklist : Option Str) :
    List Action :=
  [.touchIp client,
    .send
      { ts := env.wallClock now
        clientIp := client.toText
        domain
        qtype := env.codec.recordTypeText qtype
        status
        elapsedMs
        answer
        blocklist }]

def statusOf : ResponseCode → QueryStatus
  | .noError => .forwarded
  | .nxDomain => .nxDomain
  | .refused => .refused
  | _ => .servFail

/-- What follows the wait: the reply is cached, logged and relayed as it came. -/
def relay (r : Resolver) (env : Env) (s : State) (key : Option Key) (now elapsed : ℕ)
    (name : Str) (qtype : RecordType) (client : IpAddr) (raw : Bytes) : Served :=
  let elapsedMs := some (UInt32.ofNat (min elapsed 4294967295))
  match env.codec.fromVec raw with
  | some m =>
    let s := match key with
      | some key =>
        if r.cfg.cache then { s with cache := (s.cache.insert key m now now).2 } else s
      | none => s
    { reply := some raw
      state := s
      actions := .learnFromDns m ::
        log env now name qtype client (statusOf m.metadata.responseCode) elapsedMs
          (summarizeAnswers env.codec m) none }
  | none =>
    { reply := some raw
      state := s
      actions := log env now name qtype client .forwarded elapsedMs none none }

/-- Every upstream failed. -/
def fail (r : Resolver) (env : Env) (s : State) (msg : Message) (now : ℕ) (name : Str)
    (qtype : RecordType) (client : IpAddr) : Served where
  reply := encode env.codec (errorResponse msg .servFail r.cfg.upstreamUdpPayload)
  state := s.count fun st => { st with upstreamErrors := st.upstreamErrors + 1 }
  actions := log env now name qtype client .servFail none none none

def lookupCache (r : Resolver) (env : Env) (s : State) (key : Option Key) :
    Option CachedAnswer × State :=
  match key with
  | some key =>
    if r.cfg.cache then
      let found := s.cache.get key env.arrival
      (found.1, { s with cache := found.2 })
    else (none, s)
  | none => (none, s)

/-- Forward upstream, trying each resolver in turn. -/
def ask (r : Resolver) (env : Env) (s : State) (request : Bytes) (msg : Message)
    (key : Option Key) (name : Str) (qtype : RecordType) (client : IpAddr) : Progress :=
  let forwarded := forward env.codec r.cfg env.net request msg
  let elapsed := forwarded.1
  let now := env.arrival + elapsed * 1000000
  let later := env.meanwhile s
  let out := match forwarded.2 with
    | .ok raw => r.relay env later key now elapsed name qtype client raw
    | .error _ => r.fail env later msg now name qtype client
  .waiting s [.forward request] elapsed { out with actions := .forward request :: out.actions }

/-- Look in the cache, then ask upstream. -/
def resolve (r : Resolver) (env : Env) (s : State) (request : Bytes) (msg : Message)
    (name : Str) (qtype : RecordType) (client : IpAddr) : Progress :=
  let key := Key.fromRequest msg name
  let found := r.lookupCache env s key
  match found.1 with
  | some hit =>
    let resp := r.cachedResponse msg hit
    .done
      { reply := encode env.codec resp
        state := found.2.count fun st => { st with cacheHits := st.cacheHits + 1 }
        actions := log env env.arrival name qtype client .cached none
          (summarizeAnswers env.codec resp) none }
  | none => r.ask env found.2 request msg key name qtype client

/-- A standard query with at least one question. -/
def answer (r : Resolver) (env : Env) (s : State) (request : Bytes) (msg : Message)
    (query : Query) (client : IpAddr) : Progress :=
  let name := questionName env.codec query
  let qtype := query.queryType
  -- the canary comes before the blocklist: its answer is prescribed, not policy
  if r.disableFirefoxDoh ∧ name = firefoxCanary then
    .done
      { reply := encode env.codec (r.canaryResponse msg)
        state := s.count fun st => { st with blocked := st.blocked + 1 }
        actions := log env env.arrival name qtype client .blocked none none
          (some firefoxCanaryLabel) }
  else
    let blockedBy := if name = [] then none else s.blocklist.lookup name
    match blockedBy with
    | some list =>
      .done
        { reply := encode env.codec (r.sinkhole msg qtype)
          state := s.count fun st => { st with blocked := st.blocked + 1 }
          actions := log env env.arrival name qtype client .blocked none none (some list) }
    | none => r.resolve env s request msg name qtype client

def handleInner (r : Resolver) (env : Env) (s : State) (request : Bytes) (client : SocketAddr) :
    Progress :=
  let s := s.count fun st => { st with total := st.total + 1 }
  match env.codec.fromVec request with
  | none => .done { reply := none, state := s, actions := [] }
  | some msg =>
    -- anything but a standard query gets a refusal instead of being forwarded
    if msg.metadata.messageType ≠ .query ∨ msg.metadata.opCode ≠ .query then
      .done
        { reply := encode env.codec (errorResponse msg .refused r.cfg.upstreamUdpPayload)
          state := s
          actions := [] }
    else match msg.queries.head? with
    | none =>
      .done
        { reply := encode env.codec (errorResponse msg .formErr r.cfg.upstreamUdpPayload)
          state := s
          actions := [] }
    | some query => r.answer env s request msg query client.ip

/-- The budget ran out during the wait: the rest of the request is dropped. -/
def timedOut (r : Resolver) (env : Env) (s : State) (actions : List Action) (request : Bytes) :
    Served where
  reply := (env.codec.fromVec request).bind fun msg =>
    encode env.codec (errorResponse msg .servFail r.cfg.upstreamUdpPayload)
  state := (env.meanwhile s).count fun st => { st with requestTimeouts := st.requestTimeouts + 1 }
  actions := actions

def handle (r : Resolver) (env : Env) (s : State) (request : Bytes) (client : SocketAddr) :
    Served :=
  match r.handleInner env s request client with
  | .done out => out
  | .waiting s actions elapsed out =>
    if elapsed ≤ r.cfg.requestTimeoutMs.toNat then out else r.timedOut env s actions request

/-- A standard query is handled by its first question. -/
theorem handleInner_standard {r : Resolver} {env : Env} {s : State} {request : Bytes}
    {msg : Message} {query : Query} (hmsg : env.codec.fromVec request = some msg)
    (hstandard : msg.metadata.messageType = .query ∧ msg.metadata.opCode = .query)
    (hquery : msg.queries.head? = some query) (client : SocketAddr) :
    r.handleInner env s request client =
      r.answer env (s.count fun st => { st with total := st.total + 1 }) request msg query
        client.ip := by
  simp [handleInner, hmsg, hstandard, hquery]

end Resolver

end Netwatch.Dns
