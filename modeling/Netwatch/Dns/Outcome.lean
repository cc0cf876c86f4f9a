import Netwatch.Dns.Logged

/-!
# How a request ends

`Resolver::handle` seen from outside: the counters it moves, the events it sends and the message
it replies with. A request is decided in the state it finds, or it waits for an upstream and is
decided in the state it then finds.

## Main definitions

- `Outcome` — the ways a request ends, with what each adds to the counters and to the log
- `EndsAs` — what a request came to
- `Decided`, `Suspended` — whether it has to wait

## Main results

- `decided_or_suspended` — one of the two, whatever happens during a wait
- `endsAs_of_suspended` — how a request ends that had to wait
-/

namespace Netwatch.Dns

open RustStd Hickory

inductive Outcome
  /-- Not decodable, not a standard query, or without a question. -/
  | declined
  | blocked
  | cached
  | relayed
  /-- Every upstream failed. -/
  | failed
  | timedOut
  deriving DecidableEq

namespace Outcome

def count : Outcome → Stats → Stats
  | .declined, st => st
  | .blocked, st => { st with blocked := st.blocked + 1 }
  | .cached, st => { st with cacheHits := st.cacheHits + 1 }
  | .relayed, st => st
  | .failed, st => { st with upstreamErrors := st.upstreamErrors + 1 }
  | .timedOut, st => { st with requestTimeouts := st.requestTimeouts + 1 }

/-- The status an outcome is logged under. -/
def Logs : Outcome → List QueryEvent → Prop
  | .declined, es => es = []
  | .blocked, es => ∃ e, es = [e] ∧ e.status = .blocked
  | .cached, es => ∃ e, es = [e] ∧ e.status = .cached
  | .relayed, es => ∃ e, es = [e] ∧ e.status ≠ .blocked ∧ e.status ≠ .cached
  | .failed, es => ∃ e, es = [e] ∧ e.status = .servFail
  | .timedOut, es => es = []

end Outcome

/-- The message is a standard query with at least one question. -/
def Message.Standard (m : Message) : Prop :=
  (m.metadata.messageType = .query ∧ m.metadata.opCode = .query) ∧ m.queries ≠ []

instance (m : Message) : Decidable (Message.Standard m) := inferInstanceAs (Decidable (_ ∧ _))

/-- Nothing in the request can be looked up. -/
def Declined (codec : Codec) (request : Bytes) : Prop :=
  ∀ m ∈ codec.fromVec request, ¬ Message.Standard m

instance (codec : Codec) (request : Bytes) : Decidable (Declined codec request) :=
  inferInstanceAs (Decidable (∀ m ∈ codec.fromVec request, ¬ Message.Standard m))

/-- The same surroundings, where the others do `g` during a wait. -/
def Env.during (env : Env) (g : State → State) : Env := { env with meanwhile := g }

def Stats.begin (st : Stats) : Stats := { st with total := st.total + 1 }

/-- A reply under the transaction ID of the request: encoded here, or a relayed one that could
be decoded. -/
def Replies (codec : Codec) (request reply : Bytes) : Prop :=
  ∃ req m, codec.fromVec request = some req ∧ m.metadata.id = req.metadata.id ∧
    (codec.toVec m = some reply ∨ codec.fromVec reply = some m)

structure EndsAs (codec : Codec) (request : Bytes) (before : Stats) (o : Outcome) (out : Served) :
    Prop where
  stats : out.state.stats = o.count before
  logs : o.Logs (events out)
  reply : ∀ bytes, out.reply = some bytes → Replies codec request bytes

section Requests

variable (r : Resolver) (env : Env) (s : State) (request : Bytes) (client : SocketAddr)

/-- The request is decided at once, whatever would happen during a wait. -/
def Decided (o : Outcome) (out : Served) : Prop :=
  EndsAs env.codec request s.stats.begin o out ∧
    (o = .declined ↔ Declined env.codec request) ∧
    ∀ g, r.handleInner (env.during g) s request client = .done out

/-- The request waits for `forward`, and `st` is the state it leaves to the others. -/
def Suspended (st : State) : Prop :=
  st.stats = s.stats.begin ∧ ¬ Declined env.codec request ∧
    ∃ msg key name qtype, env.codec.fromVec request = some msg ∧
      ∀ g, r.handleInner (env.during g) s request client =
        r.ask (env.during g) st request msg key name qtype client.ip

variable {r env s request client}

theorem replies_of_encode {msg m : Message} (hmsg : env.codec.fromVec request = some msg)
    (hid : m.metadata.id = msg.metadata.id) :
    ∀ bytes, encode env.codec m = some bytes → Replies env.codec request bytes :=
  fun _ hbytes => ⟨msg, m, hmsg, hid, .inl hbytes⟩

theorem sinkhole_id (r : Resolver) (msg : Message) (qtype : RecordType) :
    (r.sinkhole msg qtype).metadata.id = msg.metadata.id := by
  simp only [Resolver.sinkhole]
  split
  · rfl
  · cases msg.queries.head? with
    | none => rfl
    | some query => cases qtype <;> rfl

theorem lookupCache_stats (r : Resolver) (env : Env) (s : State) (key : Option Key) :
    (r.lookupCache env s key).2.stats = s.stats := by
  cases key with
  | none => rfl
  | some key =>
    simp only [Resolver.lookupCache]
    split <;> rfl

variable {msg : Message} {query : Query}

/-- A request for a name that is neither intercepted nor cached is suspended. -/
theorem resolve_cases (r : Resolver) (client : SocketAddr)
    (hmsg : env.codec.fromVec request = some msg) (name : Str)
    (qtype : RecordType) (s : State) :
    (∃ out, EndsAs env.codec request s.stats .cached out ∧
      ∀ g, r.resolve (env.during g) s request msg name qtype client.ip = .done out) ∨
    ∃ st key, st.stats = s.stats ∧
      ∀ g, r.resolve (env.during g) s request msg name qtype client.ip =
        r.ask (env.during g) st request msg key name qtype client.ip := by
  cases hfound : (r.lookupCache env s (Key.fromRequest msg name)).1 with
  | some hit =>
    refine .inl ⟨
      { reply := encode env.codec (r.cachedResponse msg hit)
        state := (r.lookupCache env s (Key.fromRequest msg name)).2.count fun st =>
          { st with cacheHits := st.cacheHits + 1 }
        actions := Resolver.log env env.arrival name qtype client.ip .cached none
          (summarizeAnswers env.codec (r.cachedResponse msg hit)) none },
      ⟨?_, ⟨_, rfl, rfl⟩, replies_of_encode hmsg rfl⟩, fun g => ?_⟩
    -- looking up counts nothing
    · show Outcome.count .cached _ = Outcome.count .cached _
      rw [lookupCache_stats]
    · have hfound' : (r.lookupCache (env.during g) s
        (Key.fromRequest msg name)).1 = some hit := hfound
      simp only [Resolver.resolve, hfound']
      rfl
  | none =>
    refine .inr ⟨_, Key.fromRequest msg name, lookupCache_stats r env s
      (Key.fromRequest msg name), fun g => ?_⟩
    have hfound' : (r.lookupCache (env.during g) s
      (Key.fromRequest msg name)).1 = none := hfound
    simp only [Resolver.resolve, hfound']
    rfl

theorem answer_of_listed {list : Str}
    (hcanary : ¬ (r.disableFirefoxDoh = true ∧ questionName env.codec query = firefoxCanary))
    (hname : questionName env.codec query ≠ [])
    (hlist : s.blocklist.lookup (questionName env.codec query) = some list) (client : IpAddr) :
    r.answer env s request msg query client = .done
      { reply := encode env.codec (r.sinkhole msg query.queryType)
        state := s.count fun st => { st with blocked := st.blocked + 1 }
        actions := Resolver.log env env.arrival (questionName env.codec query) query.queryType
          client .blocked none none (some list) } := by
  simp only [Resolver.answer]
  rw [if_neg hcanary, if_neg hname, hlist]

/-- The answer to a question, with or without a wait. -/
theorem answer_cases (r : Resolver) (client : SocketAddr)
    (hmsg : env.codec.fromVec request = some msg) (query : Query) (s : State) :
    (∃ o out, EndsAs env.codec request s.stats o out ∧ o ≠ .declined ∧
      ∀ g, r.answer (env.during g) s request msg query client.ip = .done out) ∨
    ∃ st key name qtype, st.stats = s.stats ∧
      ∀ g, r.answer (env.during g) s request msg query client.ip =
        r.ask (env.during g) st request msg key name qtype client.ip := by
  by_cases hstop : Intercepted r env s query
  · refine .inl ?_
    by_cases hcanary : r.disableFirefoxDoh = true ∧ questionName env.codec query = firefoxCanary
    -- the canary is answered before the lists are asked
    · refine ⟨.blocked,
        { reply := encode env.codec (r.canaryResponse msg)
          state := s.count fun st => { st with blocked := st.blocked + 1 }
          actions := Resolver.log env env.arrival (questionName env.codec query) query.queryType
            client.ip .blocked none none (some firefoxCanaryLabel) },
        ⟨rfl, ⟨_, rfl, rfl⟩, replies_of_encode hmsg rfl⟩, by decide, fun g => ?_⟩
      exact if_pos hcanary
    · obtain ⟨hname, hblocked⟩ := hstop.resolve_left hcanary
      obtain ⟨list, hlist⟩ := Option.isSome_iff_exists.mp hblocked
      refine ⟨.blocked,
        { reply := encode env.codec (r.sinkhole msg query.queryType)
          state := s.count fun st => { st with blocked := st.blocked + 1 }
          actions := Resolver.log env env.arrival (questionName env.codec query) query.queryType
            client.ip .blocked none none (some list) },
        ⟨rfl, ⟨_, rfl, rfl⟩, replies_of_encode hmsg (sinkhole_id r msg _)⟩,
        by decide, fun g => ?_⟩
      exact answer_of_listed (by exact hcanary) (by exact hname) (by exact hlist) client.ip
  · have hresolve : ∀ g, r.answer (env.during g) s request msg query client.ip =
        r.resolve (env.during g) s request msg (questionName env.codec query)
          query.queryType client.ip := by
      intro g
      exact answer_of_not_intercepted request client.ip (by exact hstop)
    obtain ⟨out, hends, hout⟩ | ⟨st, key, hstats, hask⟩ :=
      resolve_cases r client hmsg (questionName env.codec query) query.queryType s
    · exact .inl ⟨.cached, out, hends, by decide, fun g => (hresolve g).trans (hout g)⟩
    · exact .inr ⟨st, key, _, _, hstats, fun g => (hresolve g).trans (hask g)⟩

theorem handleInner_undecodable (hmsg : env.codec.fromVec request = none) (client : SocketAddr) :
    r.handleInner env s request client =
      .done ⟨none, s.count fun st => { st with total := st.total + 1 }, []⟩ := by
  simp only [Resolver.handleInner, hmsg]

theorem handleInner_refused (hmsg : env.codec.fromVec request = some msg)
    (hstandard : ¬ (msg.metadata.messageType = .query ∧ msg.metadata.opCode = .query))
    (client : SocketAddr) :
    r.handleInner env s request client =
      .done ⟨encode env.codec (errorResponse msg .refused r.cfg.upstreamUdpPayload),
        s.count fun st => { st with total := st.total + 1 }, []⟩ := by
  simp only [Resolver.handleInner, hmsg]
  rw [if_pos (not_and_or.mp hstandard)]

theorem handleInner_formErr (hmsg : env.codec.fromVec request = some msg)
    (hstandard : msg.metadata.messageType = .query ∧ msg.metadata.opCode = .query)
    (hquery : msg.queries.head? = none) (client : SocketAddr) :
    r.handleInner env s request client =
      .done ⟨encode env.codec (errorResponse msg .formErr r.cfg.upstreamUdpPayload),
        s.count fun st => { st with total := st.total + 1 }, []⟩ := by
  simp only [Resolver.handleInner, hmsg, hquery]
  rw [if_neg (not_or.mpr ⟨not_not.mpr hstandard.1, not_not.mpr hstandard.2⟩)]

theorem decided_or_suspended (r : Resolver) (env : Env) (s : State) (request : Bytes)
    (client : SocketAddr) :
    (∃ o out, Decided r env s request client o out) ∨
      ∃ st, Suspended r env s request client st := by
  cases hmsg : env.codec.fromVec request with
  | none =>
    -- no DNS message, and no reply
    have hdeclined : Declined env.codec request := by simp [Declined, hmsg]
    refine .inl ⟨.declined, ⟨none, s.count fun st => { st with total := st.total + 1 }, []⟩,
      ⟨rfl, rfl, fun _ h => by cases h⟩, iff_of_true rfl hdeclined, fun g => ?_⟩
    exact handleInner_undecodable (by exact hmsg) client
  | some msg =>
    have hiff : Declined env.codec request ↔ ¬ Message.Standard msg := by simp [Declined, hmsg]
    by_cases hstandard : msg.metadata.messageType = .query ∧ msg.metadata.opCode = .query
    · cases hquery : msg.queries.head? with
      | none =>
        -- a query that asks nothing
        have hdeclined : Declined env.codec request :=
          hiff.mpr fun h => h.2 (List.head?_eq_none_iff.mp hquery)
        refine .inl ⟨.declined,
          ⟨encode env.codec (errorResponse msg .formErr r.cfg.upstreamUdpPayload),
            s.count fun st => { st with total := st.total + 1 }, []⟩,
          ⟨rfl, rfl, replies_of_encode hmsg rfl⟩, iff_of_true rfl hdeclined,
          fun g => ?_⟩
        exact handleInner_formErr (by exact hmsg) hstandard hquery client
      | some query =>
        have hdeclined : ¬ Declined env.codec request := by
          rw [hiff, not_not]
          refine ⟨hstandard, fun hnil => ?_⟩
          rw [hnil] at hquery
          cases hquery
        -- a standard query, whose answer is the same up to the wait whatever others do meanwhile
        have hinner : ∀ g, r.handleInner (env.during g) s request client =
            r.answer (env.during g)
              (s.count fun st => { st with total := st.total + 1 }) request msg query client.ip :=
          fun g => Resolver.handleInner_standard (by exact hmsg) hstandard hquery client
        rcases answer_cases r client hmsg query
            (s.count fun st => { st with total := st.total + 1 }) with
          ⟨o, out, hends, ho, hout⟩ | ⟨st, key, name, qtype, hstats, hask⟩
        · exact .inl ⟨o, out, hends, iff_of_false ho hdeclined,
            fun g => (hinner g).trans (hout g)⟩
        · exact .inr ⟨st, hstats, hdeclined, msg, key, name, qtype, hmsg,
            fun g => (hinner g).trans (hask g)⟩
    · have hdeclined : Declined env.codec request := hiff.mpr fun h => hstandard h.1
      refine .inl ⟨.declined,
        ⟨encode env.codec (errorResponse msg .refused r.cfg.upstreamUdpPayload),
          s.count fun st => { st with total := st.total + 1 }, []⟩,
        ⟨rfl, rfl, replies_of_encode hmsg rfl⟩, iff_of_true rfl hdeclined,
        fun g => ?_⟩
      exact handleInner_refused (by exact hmsg) hstandard client

theorem Suspended.waiting {st : State} (h : Suspended r env s request client st) :
    ∃ actions elapsed out,
      r.handleInner env s request client = .waiting st actions elapsed out := by
  obtain ⟨-, -, msg, key, name, qtype, -, hask⟩ := h
  exact ⟨_, _, _, hask env.meanwhile⟩

/-- A relayed reply is about the question that was asked. -/
theorem answersRequest_of_forward {raw : Bytes}
    (h : (forward env.codec r.cfg env.net request msg).2 = .ok raw) :
    ∃ m, env.codec.fromVec raw = some m ∧ answersRequest env.codec msg m = true := by
  rw [ok_iff_toOption, forward, forwardTo_toOption] at h
  obtain ⟨_, u, _, _, hdelivered, _⟩ := List.findSome?_eq_some_iff.mp h
  have haccepts := (Option.filter_eq_some_iff.mp hdelivered).2
  rwa [accepts, Option.any_eq_true] at haccepts

theorem statusOf_ne (code : ResponseCode) :
    Resolver.statusOf code ≠ .blocked ∧ Resolver.statusOf code ≠ .cached := by
  cases code <;> simp [Resolver.statusOf]

/-- Handing the request to `forward` sends no event. -/
theorem EndsAs.forwarded {codec : Codec} {before : Stats} {o : Outcome} {out : Served}
    (h : EndsAs codec request before o out) (wire : Bytes) :
    EndsAs codec request before o { out with actions := .forward wire :: out.actions } :=
  ⟨h.stats, h.logs, h.reply⟩

theorem endsAs_relay {raw : Bytes} {m : Message} (hmsg : env.codec.fromVec request = some msg)
    (hraw : env.codec.fromVec raw = some m) (hanswers : answersRequest env.codec msg m = true)
    (s : State) (key : Option Key) (now elapsed : ℕ) (name : Str) (qtype : RecordType)
    (client : IpAddr) :
    EndsAs env.codec request s.stats .relayed
      (r.relay env s key now elapsed name qtype client raw) := by
  have hid := (answersRequest_iff.mp hanswers).1
  refine ⟨?_, ?_, fun bytes hbytes => ?_⟩
  · simp only [Resolver.relay, hraw]
    cases key with
    | none => rfl
    | some key =>
      dsimp only
      split <;> rfl
  · simp only [Resolver.relay, hraw]
    exact ⟨_, rfl, statusOf_ne m.metadata.responseCode⟩
  · simp only [Resolver.relay, hraw, Option.some.injEq] at hbytes
    subst hbytes
    exact ⟨msg, m, hmsg, hid, .inr hraw⟩

theorem endsAs_fail (hmsg : env.codec.fromVec request = some msg) (s : State) (now : ℕ)
    (name : Str) (qtype : RecordType) (client : IpAddr) :
    EndsAs env.codec request s.stats .failed (r.fail env s msg now name qtype client) :=
  ⟨rfl, ⟨_, rfl, rfl⟩, replies_of_encode hmsg rfl⟩

theorem endsAs_timedOut (hmsg : env.codec.fromVec request = some msg) (s : State) :
    EndsAs env.codec request (env.meanwhile s).stats .timedOut
      (r.timedOut env s [.forward request] request) := by
  refine ⟨rfl, rfl, fun bytes hbytes => ?_⟩
  simp only [Resolver.timedOut, hmsg, Option.bind_some] at hbytes
  have hid : (errorResponse msg .servFail r.cfg.upstreamUdpPayload).metadata.id =
      msg.metadata.id := rfl
  exact replies_of_encode hmsg hid bytes hbytes

/-- A request that waited ends in the state the others have left. -/
theorem endsAs_of_suspended {st : State} (h : Suspended r env s request client st)
    (g : State → State) :
    ∃ o : Outcome, o ≠ .declined ∧
      EndsAs env.codec request (g st).stats o (r.handle (env.during g) s request client) := by
  obtain ⟨-, -, msg, key, name, qtype, hmsg, hask⟩ := h
  rw [Resolver.handle, hask g, Resolver.ask]
  dsimp only
  split
  · -- an upstream answered, or all of them failed, within the budget
    cases hforward : (forward (env.during g).codec r.cfg (env.during g).net request msg).2 with
    | ok raw =>
      obtain ⟨m, hraw, hanswers⟩ := answersRequest_of_forward hforward
      exact ⟨.relayed, by decide, (endsAs_relay hmsg hraw hanswers _ _ _ _ _ _ _).forwarded _⟩
    | error e => exact ⟨.failed, by decide, (endsAs_fail hmsg _ _ _ _ _).forwarded _⟩
  · have htimedOut : EndsAs (env.during g).codec request ((env.during g).meanwhile st).stats
        .timedOut (r.timedOut (env.during g) st [.forward request] request) :=
      endsAs_timedOut (by exact hmsg) st
    exact ⟨.timedOut, by decide, htimedOut⟩

end Requests

end Netwatch.Dns
