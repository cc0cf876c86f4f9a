import Netwatch.Dns.Blocking

/-!
# Answers to answers

A message with the response bit set is refused: the reply is REFUSED or nothing, and nothing
else happens. All answers the resolver makes up carry that bit, so they are refused when they
come back.

## Main definitions

- `QrSet` — the bytes carry the response bit, if they are a message at all
- `RefusedAtMost` — the request is answered with REFUSED or not at all
- `Relayed` — the reply is what an upstream sent
-/

namespace Netwatch.Dns

open RustStd Hickory

def QrSet (codec : Codec) (bytes : Bytes) : Prop :=
  ∀ msg, codec.fromVec bytes = some msg → msg.metadata.messageType = .response

/-- Counted, and answered with REFUSED or not at all: nothing is looked up, sent or logged. -/
structure RefusedAtMost (codec : Codec) (limit : UInt16) (s : State) (bytes : Bytes)
    (out : Served) : Prop where
  state : out.state = s.count fun st => { st with total := st.total + 1 }
  actions : out.actions = []
  reply : out.reply = none ∨ ∃ msg, codec.fromVec bytes = some msg ∧
    out.reply = encode codec (errorResponse msg .refused limit)

def Relayed (r : Resolver) (env : Env) (request reply : Bytes) : Prop :=
  ∃ msg, env.codec.fromVec request = some msg ∧
    (forward env.codec r.cfg env.net request msg).2 = .ok reply

theorem refusedAtMost_of_qrSet {r : Resolver} {env : Env} {bytes : Bytes}
    (h : QrSet env.codec bytes) (s : State) (client : SocketAddr) :
    RefusedAtMost env.codec r.cfg.upstreamUdpPayload s bytes (r.handle env s bytes client) := by
  cases hmsg : env.codec.fromVec bytes with
  | none =>
    have hout : r.handle env s bytes client =
        ⟨none, s.count fun st => { st with total := st.total + 1 }, []⟩ := by
      simp [Resolver.handle, Resolver.handleInner, hmsg]
    rw [hout]
    exact ⟨rfl, rfl, .inl rfl⟩
  | some msg =>
    have hout : r.handle env s bytes client =
        ⟨encode env.codec (errorResponse msg .refused r.cfg.upstreamUdpPayload),
          s.count fun st => { st with total := st.total + 1 }, []⟩ := by
      simp [Resolver.handle, Resolver.handleInner, hmsg, h msg hmsg]
    rw [hout]
    exact ⟨rfl, rfl, .inr ⟨msg, hmsg, rfl⟩⟩

/-- The encoding of a message with the response bit. -/
def MadeUp (codec : Codec) (reply : Bytes) : Prop :=
  ∃ resp, resp.metadata.messageType = .response ∧ encode codec resp = some reply

section

variable {r : Resolver} {env : Env} {s : State} {reply : Bytes}

theorem messageType_sinkhole (r : Resolver) (msg : Message) (qtype : RecordType) :
    (r.sinkhole msg qtype).metadata.messageType = .response := by
  simp only [Resolver.sinkhole]
  split
  · rfl
  · split <;> rfl

theorem madeUp_errorResponse {codec : Codec} {msg : Message} {code : ResponseCode}
    {limit : UInt16} (h : encode codec (errorResponse msg code limit) = some reply) :
    MadeUp codec reply := ⟨_, rfl, h⟩

def Progress.out : Progress → Served
  | .done out => out
  | .waiting _ _ _ out => out

theorem reply_ask {request : Bytes} {msg : Message} {key : Option Key} {name : Str}
    {qtype : RecordType} {client : IpAddr}
    (hreply : (r.ask env s request msg key name qtype client).out.reply = some reply) :
    (forward env.codec r.cfg env.net request msg).2 = .ok reply ∨ MadeUp env.codec reply := by
  simp only [Resolver.ask, Progress.out] at hreply
  cases hforward : (forward env.codec r.cfg env.net request msg).2 with
  | ok raw =>
    left
    rw [hforward] at hreply
    simp only [Resolver.relay] at hreply
    split at hreply <;> exact congrArg Except.ok (Option.some.inj hreply)
  | error e =>
    right
    rw [hforward] at hreply
    exact madeUp_errorResponse hreply

theorem reply_answer {request : Bytes} {msg : Message} {query : Query} {client : IpAddr}
    (hreply : (r.answer env s request msg query client).out.reply = some reply) :
    (forward env.codec r.cfg env.net request msg).2 = .ok reply ∨ MadeUp env.codec reply := by
  simp only [Resolver.answer] at hreply
  split at hreply
  · exact .inr (madeUp_errorResponse hreply)
  · split at hreply
    · exact .inr ⟨_, messageType_sinkhole r msg query.queryType, hreply⟩
    · simp only [Resolver.resolve] at hreply
      split at hreply
      · exact .inr ⟨r.cachedResponse msg _, rfl, hreply⟩
      · exact reply_ask hreply

/-- Every reply is relayed or made up. -/
theorem relayed_or_madeUp {request : Bytes} {client : SocketAddr}
    (hreply : (r.handle env s request client).reply = some reply) :
    Relayed r env request reply ∨ MadeUp env.codec reply := by
  have hinner : (r.handleInner env s request client).out.reply = some reply →
      Relayed r env request reply ∨ MadeUp env.codec reply := by
    intro h
    simp only [Resolver.handleInner] at h
    split at h
    · cases h
    · next msg hmsg =>
      split at h
      · exact .inr (madeUp_errorResponse h)
      · split at h
        · exact .inr (madeUp_errorResponse h)
        · exact (reply_answer h).imp_left fun hforward => ⟨msg, hmsg, hforward⟩
  rw [Resolver.handle] at hreply
  split at hreply
  · next out hdone => exact hinner (by rw [hdone]; exact hreply)
  · next s' actions elapsed out hwaiting =>
    split at hreply
    · exact hinner (by rw [hwaiting]; exact hreply)
    · -- the budget ran out: SERVFAIL
      obtain ⟨msg, _, hencode⟩ := Option.bind_eq_some_iff.mp hreply
      exact .inr (madeUp_errorResponse hencode)

end

/-- No instance resolves a message that has the response bit. -/
def RefusesAnswers (codec : Codec) : Prop :=
  ∀ (r : Resolver) (env : Env) (s : State) (bytes : Bytes) (client : SocketAddr),
    env.codec = codec → QrSet codec bytes →
    RefusedAtMost codec r.cfg.upstreamUdpPayload s bytes (r.handle env s bytes client)

/-- No instance resolves a reply of another one, or of its own, that was not relayed. -/
def RefusesReplies (codec : Codec) : Prop :=
  ∀ (r : Resolver) (env : Env) (s : State) (request : Bytes) (client : SocketAddr)
    (reply : Bytes), env.codec = codec → (r.handle env s request client).reply = some reply →
    ¬ Relayed r env request reply →
    ∀ (r' : Resolver) (env' : Env) (s' : State) (client' : SocketAddr), env'.codec = codec →
      RefusedAtMost codec r'.cfg.upstreamUdpPayload s' reply (r'.handle env' s' reply client')

/-- Answers are refused at most, and so are the replies the resolver makes up, as long as the
codec keeps the response bit. -/
theorem answers_refusedAtMost {codec : Codec}
    (hcodec : ∀ m bytes m', codec.toVec m = some bytes → codec.fromVec bytes = some m' →
      m'.metadata.messageType = m.metadata.messageType) :
    RefusesAnswers codec ∧ RefusesReplies codec := by
  have hrefuses : RefusesAnswers codec := by
    rintro r env s bytes client rfl hqr
    exact refusedAtMost_of_qrSet hqr s client
  refine ⟨hrefuses, ?_⟩
  rintro r env s request client reply rfl hreply hrelayed r' env' s' client' henv'
  refine hrefuses r' env' s' reply client' henv' fun msg hmsg => ?_
  obtain ⟨resp, hresponse, hencode⟩ := (relayed_or_madeUp hreply).resolve_left hrelayed
  rw [hcodec resp reply msg hencode hmsg, hresponse]

/-! ### Refusals without end -/

/-- NOTIFY for `example.com`. -/
def notify : Message :=
  { exampleQuery with metadata := { exampleQuery.metadata with opCode := .other 4 } }

def notifyBytes : Bytes := exampleQueryBytes.set 2 0x21

def refusal : Message := errorResponse notify .refused 1232

def refusalBytes : Bytes := (exampleQueryBytes.set 2 0x81).set 3 0x85

def notifyTable : List (Bytes × Message) := [(notifyBytes, notify), (refusalBytes, refusal)]

theorem answers_refusedAtMost_notify :
    RefusesAnswers (.ofTable notifyTable) ∧ RefusesReplies (.ofTable notifyTable) :=
  answers_refusedAtMost fun m bytes m' hm hbytes => by
    have hsame := Codec.fromVec_of_toVec_ofTable (by decide) hm
    rw [Option.some.inj (hbytes.symm.trans hsame)]

/-- A refusal that comes back is answered with the same refusal. -/
theorem refusal_answered_with_refusal :
    (sampleResolver.handle (silentEnv notifyTable) denyAds notifyBytes anyClient).reply =
        some refusalBytes ∧
      QrSet (silentEnv notifyTable).codec refusalBytes ∧
      (sampleResolver.handle (silentEnv notifyTable) denyAds refusalBytes anyClient).reply =
        some refusalBytes := by
  refine ⟨rfl, fun msg hmsg => ?_, rfl⟩
  have hdecodes : (silentEnv notifyTable).codec.fromVec refusalBytes = some refusal := by decide
  rw [Option.some.inj (hmsg.symm.trans hdecodes)]
  rfl

end Netwatch.Dns
