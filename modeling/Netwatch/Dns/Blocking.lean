import Netwatch.Dns.Resolver

/-!
# Blocking

The matcher is asked about the first question of a request, and the whole request is what goes
upstream. Blocking is complete for a request exactly when that one look is enough.

## Main definitions

- `Blocked` — the matcher blocks the name of a question
- `Intercepted` — the canary or the matcher stops a question
- `OnlyMadeUp` — the reply is the canary or the sinkhole, with nothing sent and no cache used
-/

namespace Netwatch.Dns

open RustStd Hickory

variable (r : Resolver) (env : Env) (s : State)

def Blocked (query : Query) : Prop :=
  (s.blocklist.lookup (questionName env.codec query)).isSome = true

/-- The checks that are made on the first question. -/
def Intercepted (query : Query) : Prop :=
  (r.disableFirefoxDoh = true ∧ questionName env.codec query = firefoxCanary) ∨
    (questionName env.codec query ≠ [] ∧ Blocked env s query)

/-- The request is answered at once with a made up answer: nothing is sent upstream and the
cache is not touched. -/
def OnlyMadeUp (msg : Message) (p : Progress) : Prop :=
  ∃ out, p = .done out ∧ (∀ w, .forward w ∉ out.actions) ∧
    out.state.cache = s.cache ∧ out.state.stats.cacheHits = s.stats.cacheHits ∧
    ∃ query, msg.queries.head? = some query ∧
      (out.reply = encode env.codec (r.canaryResponse msg) ∨
        out.reply = encode env.codec (r.sinkhole msg query.queryType))

variable {r env s}

theorem not_forward_mem_log (now : ℕ) (domain : Str) (qtype : RecordType) (client : IpAddr)
    (status : QueryStatus) (elapsedMs : Option UInt32) (answer blocklist : Option Str)
    (w : Bytes) :
    Action.forward w ∉
      Resolver.log env now domain qtype client status elapsedMs answer blocklist := by
  simp [Resolver.log]

theorem stats_lookupCache (r : Resolver) (env : Env) (s : State) (key : Option Key) :
    (r.lookupCache env s key).2.stats = s.stats := by
  cases key with
  | none => rfl
  | some key =>
    simp only [Resolver.lookupCache]
    split <;> rfl

/-- A request that gets as far as `resolve` uses the cache or waits for an upstream. -/
theorem not_onlyMadeUp_resolve (request : Bytes) (msg : Message) (name : Str)
    (qtype : RecordType) (client : IpAddr) :
    ¬ OnlyMadeUp r env s msg (r.resolve env s request msg name qtype client) := by
  rintro ⟨out, hdone, _, _, hhits, _⟩
  simp only [Resolver.resolve] at hdone
  split at hdone
  · cases hdone
    have hstats := stats_lookupCache r env s (Key.fromRequest msg name)
    simp [State.count, hstats] at hhits
  · cases hdone

/-- An intercepted question decides the request; any other one gets past both checks. -/
theorem onlyMadeUp_answer_iff {request : Bytes} {msg : Message} {query : Query}
    (hquery : msg.queries.head? = some query) (client : IpAddr) :
    OnlyMadeUp r env s msg (r.answer env s request msg query client) ↔
      Intercepted r env s query := by
  simp only [Resolver.answer]
  by_cases hcanary : r.disableFirefoxDoh = true ∧ questionName env.codec query = firefoxCanary
  · rw [if_pos hcanary]
    refine ⟨fun _ => .inl hcanary, fun _ => ⟨_, rfl, ?_, rfl, rfl, query, hquery, .inl rfl⟩⟩
    exact not_forward_mem_log _ _ _ _ _ _ _ _
  · rw [if_neg hcanary]
    rw [Intercepted, or_iff_right hcanary, Blocked]
    by_cases hname : questionName env.codec query = []
    · rw [if_pos hname]
      simp [hname, not_onlyMadeUp_resolve]
    · rw [if_neg hname]
      cases hlookup : s.blocklist.lookup (questionName env.codec query) with
      | none => simp [not_onlyMadeUp_resolve]
      | some list =>
        refine ⟨fun _ => ⟨hname, rfl⟩, fun _ => ⟨_, rfl, ?_, rfl, rfl, query, hquery, .inr rfl⟩⟩
        exact not_forward_mem_log _ _ _ _ _ _ _ _

/-- A standard query is handled completely exactly when no question of it is blocked or the
first one is intercepted. -/
theorem blocking_complete_iff {request : Bytes} {msg : Message}
    (hmsg : env.codec.fromVec request = some msg)
    (hstandard : msg.metadata.messageType = .query ∧ msg.metadata.opCode = .query)
    (client : SocketAddr) :
    ((∃ query ∈ msg.queries, Blocked env s query) →
        OnlyMadeUp r env s msg (r.handleInner env s request client)) ↔
      (∀ query ∈ msg.queries, ¬ Blocked env s query) ∨
        ∃ query, msg.queries.head? = some query ∧ Intercepted r env s query := by
  by_cases hnone : ∀ query ∈ msg.queries, ¬ Blocked env s query
  · refine ⟨fun _ => .inl hnone, fun _ ⟨query, hmem, hblocked⟩ => ?_⟩
    exact absurd hblocked (hnone query hmem)
  · have hsome : ∃ query ∈ msg.queries, Blocked env s query := by
      by_contra hno
      exact hnone fun query hmem hblocked => hno ⟨query, hmem, hblocked⟩
    rw [or_iff_right hnone, forall_prop_of_true hsome]
    obtain ⟨first, hfirst⟩ : ∃ first, msg.queries.head? = some first := by
      obtain ⟨query, hmem, _⟩ := hsome
      exact ⟨_, List.head?_eq_some_head (List.ne_nil_of_mem hmem)⟩
    rw [Resolver.handleInner_standard hmsg hstandard hfirst]
    refine (onlyMadeUp_answer_iff hfirst client.ip).trans ?_
    simp only [hfirst, Option.some.injEq, exists_eq_left']
    exact Iff.rfl

/-! ### Two questions -/

def adsExampleName : Name :=
  ⟨[[97, 100, 115], [101, 120, 97, 109, 112, 108, 101], [99, 111, 109]]⟩

/-- `example.com. IN A?` and `ads.example.com. IN A?` in one message. -/
def twoQuestions : Message :=
  { exampleQuery with queries := [⟨exampleName, .a, .internet⟩, ⟨adsExampleName, .a, .internet⟩] }

def twoQuestionsBytes : Bytes :=
  [0x12, 0x34, 0x01, 0x00, 0, 2, 0, 0, 0, 0, 0, 0,
    7, 101, 120, 97, 109, 112, 108, 101, 3, 99, 111, 109, 0, 0, 1, 0, 1,
    3, 97, 100, 115, 7, 101, 120, 97, 109, 112, 108, 101, 3, 99, 111, 109, 0, 0, 1, 0, 1]

def sampleResolver : Resolver := .new {} none

/-- Upstreams that stay silent. -/
def silentEnv (table : List (Bytes × Message)) : Env where
  codec := .ofTable table
  net _ := ⟨[], none⟩
  arrival := 0
  wallClock _ := 0
  meanwhile := id

/-- A fresh start with one rule on the deny list. -/
def denyAds : State where
  blocklist := (({} : Blocklist).ingest "ads.example.com".toList "deny.list".toList false).2
  cache := .new 20000 30 86400

def anyClient : SocketAddr := ⟨.v4 (Ipv4Addr.ofOctets 192 168 1 20), 5353⟩

/-- The same questions the other way round: what is blocked comes first. -/
def adsFirst : Message := { exampleQuery with queries := twoQuestions.queries.reverse }

def adsFirstBytes : Bytes :=
  [0x12, 0x34, 0x01, 0x00, 0, 2, 0, 0, 0, 0, 0, 0,
    3, 97, 100, 115, 7, 101, 120, 97, 109, 112, 108, 101, 3, 99, 111, 109, 0, 0, 1, 0, 1,
    7, 101, 120, 97, 109, 112, 108, 101, 3, 99, 111, 109, 0, 0, 1, 0, 1]

theorem blocking_complete_iff_adsFirst :
    ((∃ query ∈ adsFirst.queries,
          Blocked (silentEnv [(adsFirstBytes, adsFirst)]) denyAds query) →
        OnlyMadeUp sampleResolver (silentEnv [(adsFirstBytes, adsFirst)]) denyAds adsFirst
          (sampleResolver.handleInner (silentEnv [(adsFirstBytes, adsFirst)]) denyAds
            adsFirstBytes anyClient)) ↔
      (∀ query ∈ adsFirst.queries,
          ¬ Blocked (silentEnv [(adsFirstBytes, adsFirst)]) denyAds query) ∨
        ∃ query, adsFirst.queries.head? = some query ∧
          Intercepted sampleResolver (silentEnv [(adsFirstBytes, adsFirst)]) denyAds query :=
  blocking_complete_iff (by decide) (by decide) anyClient

/-- The second question is on the deny list, and the request is forwarded. -/
theorem twoQuestions_forwarded :
    (silentEnv [(twoQuestionsBytes, twoQuestions)]).codec.fromVec twoQuestionsBytes =
        some twoQuestions ∧
      (∃ query ∈ twoQuestions.queries,
        Blocked (silentEnv [(twoQuestionsBytes, twoQuestions)]) denyAds query) ∧
      (∃ s elapsed out, sampleResolver.handleInner
          (silentEnv [(twoQuestionsBytes, twoQuestions)]) denyAds twoQuestionsBytes anyClient =
        .waiting s [.forward twoQuestionsBytes] elapsed out) ∧
      ¬ OnlyMadeUp sampleResolver (silentEnv [(twoQuestionsBytes, twoQuestions)]) denyAds
        twoQuestions (sampleResolver.handleInner
          (silentEnv [(twoQuestionsBytes, twoQuestions)]) denyAds twoQuestionsBytes anyClient) := by
  have hwaits : ∃ s elapsed out, sampleResolver.handleInner
      (silentEnv [(twoQuestionsBytes, twoQuestions)]) denyAds twoQuestionsBytes anyClient =
        .waiting s [.forward twoQuestionsBytes] elapsed out := ⟨_, _, _, rfl⟩
  refine ⟨by decide, ⟨⟨adsExampleName, .a, .internet⟩, by decide, ?_⟩, hwaits, ?_⟩
  · show (denyAds.blocklist.lookup "ads.example.com".toList).isSome = true
    decide
  · rintro ⟨out, hdone, _⟩
    obtain ⟨s, elapsed, out', hwaiting⟩ := hwaits
    rw [hwaiting] at hdone
    cases hdone

end Netwatch.Dns
