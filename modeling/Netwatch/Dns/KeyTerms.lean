import Netwatch.Dns.Resolver

/-!
# What a cache key tells apart

Two requests with one cache key are answered from one entry. The key is built from the first
question, the OPT record and one header bit; the forwarder sends the request as it came.

## Main definitions

- `requestKey` — the key a request is looked up under
- `SameTerms` — two requests put the same questions in the same terms
-/

namespace Netwatch.Dns

open RustStd Hickory

/-- The key `handle_inner` computes for a request. -/
def requestKey (codec : Codec) (msg : Message) : Option Key :=
  msg.queries.head?.bind fun query => Key.fromRequest msg (questionName codec query)

def SameQuestion (a b : Query) : Prop :=
  a.name.SameUpToCase b.name ∧ a.queryType = b.queryType ∧ a.queryClass = b.queryClass

def dnssecOk (msg : Message) : Bool := msg.edns.any Edns.dnssecOk

/-- The same questions, under the same RD, CD and DO flags. -/
structure SameTerms (m₁ m₂ : Message) : Prop where
  questions : List.Forall₂ SameQuestion m₁.queries m₂.queries
  recursionDesired : m₁.metadata.recursionDesired = m₂.metadata.recursionDesired
  checkingDisabled : m₁.metadata.checkingDisabled = m₂.metadata.checkingDisabled
  dnssecOk : dnssecOk m₁ = dnssecOk m₂

theorem requestKey_eq_some {codec : Codec} {msg : Message} {key : Key}
    (h : requestKey codec msg = some key) :
    ∃ query rest, msg.queries = query :: rest ∧
      key = ⟨questionName codec query, query.queryType, query.queryClass, dnssecOk msg,
        msg.metadata.checkingDisabled⟩ := by
  cases hqueries : msg.queries with
  | nil => simp [requestKey, hqueries] at h
  | cons query rest =>
    refine ⟨query, rest, rfl, ?_⟩
    simp only [requestKey, Key.fromRequest, hqueries, List.head?_cons, Option.bind_some,
      Option.map_some, Option.some.injEq] at h
    exact h.symm

/-- Two requests with one key agree on everything but RD and the questions after the first,
provided that the rendering of their names tells names apart up to case. -/
theorem sameTerms_iff_of_requestKey_eq {codec : Codec} {m₁ m₂ : Message} {key : Key}
    (h₁ : requestKey codec m₁ = some key) (h₂ : requestKey codec m₂ = some key)
    (hnames : ∀ q₁ ∈ m₁.queries, ∀ q₂ ∈ m₂.queries,
      questionName codec q₁ = questionName codec q₂ → q₁.name.SameUpToCase q₂.name) :
    SameTerms m₁ m₂ ↔
      m₁.metadata.recursionDesired = m₂.metadata.recursionDesired ∧
        List.Forall₂ SameQuestion m₁.queries.tail m₂.queries.tail := by
  obtain ⟨q₁, rest₁, hq₁, rfl⟩ := requestKey_eq_some h₁
  obtain ⟨q₂, rest₂, hq₂, hkey⟩ := requestKey_eq_some h₂
  obtain ⟨hname, htype, hclass, hdo, hcd⟩ := Key.mk.inj hkey
  have hfirst : SameQuestion q₁ q₂ :=
    ⟨hnames q₁ (by simp [hq₁]) q₂ (by simp [hq₂]) hname, htype, hclass⟩
  constructor
  · rintro ⟨hquestions, hrd, _, _⟩
    rw [hq₁, hq₂] at hquestions ⊢
    exact ⟨hrd, (List.forall₂_cons.mp hquestions).2⟩
  · rintro ⟨hrd, htail⟩
    refine ⟨?_, hrd, hcd, hdo⟩
    rw [hq₁, hq₂] at htail ⊢
    exact List.Forall₂.cons hfirst htail

/-- The same question without RD. -/
def iterativeQuery : Message :=
  { exampleQuery with metadata := { exampleQuery.metadata with recursionDesired := false } }

def exampleKey : Key := ⟨"example.com".toList, .a, .internet, false, false⟩

/-- The same question with another identifier and in capitals. -/
def loudQuery : Message :=
  { exampleQuery with
    metadata := { exampleQuery.metadata with id := 0x9876 }
    queries := [⟨⟨[[69, 88, 65, 77, 80, 76, 69], [67, 79, 77]]⟩, .a, .internet⟩] }

theorem sameTerms_iff_of_requestKey_eq_loudQuery :
    SameTerms exampleQuery loudQuery ↔
      exampleQuery.metadata.recursionDesired = loudQuery.metadata.recursionDesired ∧
        List.Forall₂ SameQuestion exampleQuery.queries.tail loudQuery.queries.tail :=
  have hkey : requestKey (.ofTable []) exampleQuery = some exampleKey := by decide
  have hloud : requestKey (.ofTable []) loudQuery = some exampleKey := by decide
  sameTerms_iff_of_requestKey_eq hkey hloud (by decide)

/-- A request without RD and one with RD share a key, and so an answer. -/
theorem iterativeQuery_shares_key :
    requestKey (.ofTable []) iterativeQuery = some exampleKey ∧
      requestKey (.ofTable []) exampleQuery = some exampleKey ∧
      ¬ SameTerms iterativeQuery exampleQuery :=
  ⟨by decide, by decide, fun h => absurd h.recursionDesired (by decide)⟩

end Netwatch.Dns
