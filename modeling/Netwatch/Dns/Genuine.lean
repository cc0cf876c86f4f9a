import Netwatch.Dns.Forward

/-!
# What is accepted from upstream

A reply is genuine when it is a complete response to the one question that was asked.
`answers_request` asks for less: it compares the transaction ID and the first questions.
Whether `forward` still only returns genuine replies then depends on what the servers send
and in which order they are asked.

## Main definitions

- `Genuine` — a complete response to the request
- `Slips` — what `answers_request` does not look at
- `delivered` — the reply a server gets through in time
- `OnlyGenuine` — the result is the first genuine reply, if there is one
-/

namespace Netwatch.Dns

open RustStd Hickory

structure Genuine (codec : Codec) (req resp : Message) : Prop where
  response : resp.metadata.messageType = .response
  id : resp.metadata.id = req.metadata.id
  question : ∃ q a, req.queries = [q] ∧ resp.queries = [a] ∧ a.queryType = q.queryType ∧
    a.queryClass = q.queryClass ∧
    Str.eqIgnoreAsciiCase (codec.toAscii a.name) (codec.toAscii q.name) = true
  complete : resp.metadata.truncation = false

def Slips (req resp : Message) : Prop :=
  resp.metadata.messageType ≠ .response ∨ resp.metadata.truncation = true ∨
    req.queries.length ≠ 1 ∨ resp.queries.length ≠ 1

theorem eqIgnoreAsciiCase_comm (s t : Str) :
    Str.eqIgnoreAsciiCase s t = Str.eqIgnoreAsciiCase t s := by
  rw [Str.eqIgnoreAsciiCase, Str.eqIgnoreAsciiCase, Bool.beq_comm]

/-- The acceptance test of the source, spelled out. -/
theorem answersRequest_iff {codec : Codec} {req resp : Message} :
    answersRequest codec req resp = true ↔
      resp.metadata.id = req.metadata.id ∧
        ∃ q a, req.queries.head? = some q ∧ resp.queries.head? = some a ∧
          a.queryType = q.queryType ∧ a.queryClass = q.queryClass ∧
          Str.eqIgnoreAsciiCase (codec.toAscii a.name) (codec.toAscii q.name) = true := by
  rw [answersRequest]
  by_cases hid : resp.metadata.id = req.metadata.id
  · rw [if_neg (not_not.mpr hid), and_iff_right hid]
    cases req.queries.head? with
    | none => simp
    | some q =>
      cases resp.queries.head? with
      | none => simp
      | some a =>
        simp only [Bool.and_eq_true, beq_iff_eq, Option.some.injEq, and_assoc]
        rw [eq_comm, @eq_comm _ q.queryClass, eqIgnoreAsciiCase_comm]
        constructor
        · intro h
          exact ⟨q, a, rfl, rfl, h⟩
        · rintro ⟨_, _, rfl, rfl, h⟩
          exact h
  · rw [if_pos hid]
    simp [hid]

/-- A genuine reply passes the test, and one that passes is genuine unless it slips through. -/
theorem genuine_iff {codec : Codec} {req resp : Message} :
    Genuine codec req resp ↔ answersRequest codec req resp = true ∧ ¬ Slips req resp := by
  rw [answersRequest_iff]
  constructor
  · rintro ⟨hresponse, hid, ⟨q, a, hq, ha, hmatch⟩, hcomplete⟩
    refine ⟨⟨hid, q, a, by rw [hq]; rfl, by rw [ha]; rfl, hmatch⟩, ?_⟩
    simp [Slips, hresponse, hcomplete, hq, ha]
  · rintro ⟨⟨hid, q, a, hq, ha, hmatch⟩, hslips⟩
    simp only [Slips, not_or, not_not, Bool.not_eq_true] at hslips
    obtain ⟨hresponse, hcomplete, hreq, hresp⟩ := hslips
    obtain ⟨q', hq'⟩ := List.length_eq_one_iff.mp hreq
    obtain ⟨a', ha'⟩ := List.length_eq_one_iff.mp hresp
    have hqq : q' = q := by simpa [hq'] using hq
    have haa : a' = a := by simpa [ha'] using ha
    subst hqq haa
    exact ⟨hresponse, hid, ⟨q', a', hq', ha', hmatch⟩, hcomplete⟩

section Forwarding

variable (codec : Codec) (parsed : Message)

def IsGenuine (bytes : Bytes) : Prop :=
  ∃ m, codec.fromVec bytes = some m ∧ Genuine codec parsed m

/-- Accepted although it is not genuine. -/
def SlipsThrough (bytes : Bytes) : Prop :=
  ∃ m, codec.fromVec bytes = some m ∧ answersRequest codec parsed m = true ∧ Slips parsed m

def accepts (bytes : Bytes) : Bool := (codec.fromVec bytes).any (answersRequest codec parsed)

variable {codec parsed}

theorem accepts_iff {bytes : Bytes} :
    accepts codec parsed bytes = true ↔
      IsGenuine codec parsed bytes ∨ SlipsThrough codec parsed bytes := by
  simp only [accepts, Option.any_eq_true, IsGenuine, SlipsThrough, genuine_iff]
  constructor
  · rintro ⟨m, hm, hanswers⟩
    by_cases hslips : Slips parsed m
    · exact .inr ⟨m, hm, hanswers, hslips⟩
    · exact .inl ⟨m, hm, hanswers, hslips⟩
  · rintro (⟨m, hm, hanswers, _⟩ | ⟨m, hm, hanswers, _⟩)
    · exact ⟨m, hm, hanswers⟩
    · exact ⟨m, hm, hanswers⟩

theorem not_slipsThrough_of_isGenuine {bytes : Bytes} (h : IsGenuine codec parsed bytes) :
    ¬ SlipsThrough codec parsed bytes := by
  rintro ⟨m, hm, _, hslips⟩
  obtain ⟨m', hm', hgenuine⟩ := h
  have hsame : m' = m := Option.some.inj (hm'.symm.trans hm)
  exact (genuine_iff.mp hgenuine).2 (hsame ▸ hslips)

/-- The reply a server gets through within the timeout. -/
def delivered (codec : Codec) (wire : Bytes) (limit : UInt16) (timeout : ℕ)
    (upstream : Upstream) : Option Bytes :=
  match withTimeout timeout (attempt codec wire limit upstream) with
  | some (_, .ok reply) => some reply
  | _ => none

/-- The first reply that passes the acceptance test is what comes back. -/
theorem forwardTo_toOption (wire : Bytes) (limit : UInt16) (timeout : ℕ)
    (upstreams : List Upstream) (lastErr : ForwardError) :
    (forwardTo codec wire parsed limit timeout upstreams lastErr).2.toOption =
      upstreams.findSome? fun u =>
        (delivered codec wire limit timeout u).filter (accepts codec parsed) := by
  induction upstreams generalizing lastErr with
  | nil => rfl
  | cons upstream upstreams ih =>
    rw [forwardTo, List.findSome?_cons, delivered]
    cases withTimeout timeout (attempt codec wire limit upstream) with
    | none => exact ih _
    | some r =>
      obtain ⟨t, outcome⟩ := r
      cases outcome with
      | error e => exact ih _
      | ok reply =>
        cases hm : codec.fromVec reply with
        | none =>
          simp only [Option.filter_some, accepts, hm, Option.any_none, Bool.false_eq_true,
            if_false]
          exact ih _
        | some m =>
          simp only [Option.filter_some, accepts, hm, Option.any_some]
          by_cases hanswers : answersRequest codec parsed m = true
          · rw [if_pos hanswers, if_pos hanswers]
            rfl
          · rw [if_neg hanswers, if_neg hanswers]
            exact ih _

/-- The result is the first genuine reply in the configured order, and there is one whenever
some server delivers one. -/
structure OnlyGenuine (codec : Codec) (parsed : Message) (replies : List (Option Bytes))
    (result : Except ForwardError Bytes) : Prop where
  first : ∀ bytes, result = .ok bytes → IsGenuine codec parsed bytes ∧
    ∃ before after, replies = before ++ some bytes :: after ∧
      ∀ b, some b ∈ before → ¬ IsGenuine codec parsed b
  complete : (∃ b, some b ∈ replies ∧ IsGenuine codec parsed b) → ∃ bytes, result = .ok bytes

/-- No reply slips through before a genuine one was delivered. -/
def GenuineFirst (codec : Codec) (parsed : Message) (replies : List (Option Bytes)) : Prop :=
  ∀ before bytes after, replies = before ++ some bytes :: after →
    SlipsThrough codec parsed bytes → ∃ b, some b ∈ before ∧ IsGenuine codec parsed b

theorem ok_iff_toOption {result : Except ForwardError Bytes} {bytes : Bytes} :
    result = .ok bytes ↔ result.toOption = some bytes := by
  cases result <;> simp [Except.toOption]

theorem filter_of_isGenuine {bytes : Bytes} (h : IsGenuine codec parsed bytes) :
    (some bytes).filter (accepts codec parsed) = some bytes := by
  rw [Option.filter_some, if_pos (accepts_iff.mpr (.inl h))]

section FirstAccepted

variable {replies : List (Option Bytes)} {result : Except ForwardError Bytes}
  (hresult : result.toOption =
    replies.findSome? fun reply => reply.filter (accepts codec parsed))

include hresult

theorem genuineFirst_of_onlyGenuine (h : OnlyGenuine codec parsed replies result) :
    GenuineFirst codec parsed replies := by
  intro before bytes after hreplies hslips
  by_contra hnone
  -- the result then comes from `before`, where nothing is genuine, or is `bytes` itself
  rw [hreplies, List.findSome?_append, List.findSome?_cons, Option.filter_some,
    if_pos (accepts_iff.mpr (.inr hslips))] at hresult
  cases hbefore : before.findSome? fun reply => reply.filter (accepts codec parsed) with
  | some b =>
    obtain ⟨l₁, reply, l₂, hsplit, hreply, _⟩ := List.findSome?_eq_some_iff.mp hbefore
    have hsome : reply = some b := (Option.filter_eq_some_iff.mp hreply).1
    have hok : result = .ok b := ok_iff_toOption.mpr (by rw [hresult, hbefore]; rfl)
    refine hnone ⟨b, ?_, (h.first b hok).1⟩
    rw [hsplit, hsome]
    simp
  | none =>
    have hok : result = .ok bytes := ok_iff_toOption.mpr (by rw [hresult, hbefore]; rfl)
    exact not_slipsThrough_of_isGenuine (h.first bytes hok).1 hslips

theorem onlyGenuine_of_genuineFirst (h : GenuineFirst codec parsed replies) :
    OnlyGenuine codec parsed replies result := by
  refine ⟨?_, ?_⟩
  · intro bytes hbytes
    rw [ok_iff_toOption, hresult] at hbytes
    obtain ⟨before, reply, after, hsplit, hreply, hbefore⟩ :=
      List.findSome?_eq_some_iff.mp hbytes
    obtain ⟨hsome, haccepts⟩ := Option.filter_eq_some_iff.mp hreply
    subst hsome
    have hno : ∀ b, some b ∈ before → ¬ IsGenuine codec parsed b := by
      intro b hmem hb
      have hskip := hbefore _ hmem
      rw [filter_of_isGenuine hb] at hskip
      cases hskip
    refine ⟨?_, before, after, hsplit, hno⟩
    rcases accepts_iff.mp haccepts with hb | hslips
    · exact hb
    · obtain ⟨b, hmem, hb⟩ := h before bytes after hsplit hslips
      exact absurd hb (hno b hmem)
  · rintro ⟨b, hmem, hb⟩
    have hsome : (replies.findSome? fun reply =>
        reply.filter (accepts codec parsed)).isSome = true := by
      rw [List.findSome?_isSome_iff]
      exact ⟨some b, hmem, by rw [filter_of_isGenuine hb]; rfl⟩
    obtain ⟨bytes, hbytes⟩ := Option.isSome_iff_exists.mp hsome
    exact ⟨bytes, ok_iff_toOption.mpr (hresult.trans hbytes)⟩

theorem onlyGenuine_iff_of_toOption :
    OnlyGenuine codec parsed replies result ↔ GenuineFirst codec parsed replies :=
  ⟨genuineFirst_of_onlyGenuine hresult, onlyGenuine_of_genuineFirst hresult⟩

end FirstAccepted

end Forwarding

/-- What each server delivers for a request, in the configured order. -/
def replies (codec : Codec) (cfg : DnsConfig) (net : ℕ → Peer) (request : Bytes)
    (parsed : Message) : List (Option Bytes) :=
  let limit := cfg.upstreamUdpPayload
  let wire := clampUpstreamPayload codec request parsed limit
  (upstreamsOf cfg net).map (delivered codec wire limit cfg.upstreamTimeoutMs.toNat)

/-- `forward` only returns genuine replies exactly when none that slips through its test is
delivered ahead of the first genuine one. -/
theorem forward_onlyGenuine_iff (codec : Codec) (cfg : DnsConfig) (net : ℕ → Peer)
    (request : Bytes) (parsed : Message) :
    OnlyGenuine codec parsed (replies codec cfg net request parsed)
        (forward codec cfg net request parsed).2 ↔
      GenuineFirst codec parsed (replies codec cfg net request parsed) := by
  apply onlyGenuine_iff_of_toOption
  rw [forward, forwardTo_toOption, replies, List.findSome?_map]
  rfl

/-! ### An echo -/

def echoCodec : Codec := .ofTable [(exampleQueryBytes, exampleQuery)]

/-- A server that sends the request back. -/
def echo : Peer := ⟨[(5, .ok exampleQueryBytes)], none⟩

/-- The request itself, reflected, is accepted as its own answer. -/
theorem forward_accepts_echo :
    (forward echoCodec {} (fun _ => echo) exampleQueryBytes exampleQuery).2 =
        .ok exampleQueryBytes ∧
      ¬ IsGenuine echoCodec exampleQuery exampleQueryBytes ∧
      ¬ OnlyGenuine echoCodec exampleQuery
        (replies echoCodec {} (fun _ => echo) exampleQueryBytes exampleQuery)
        (forward echoCodec {} (fun _ => echo) exampleQueryBytes exampleQuery).2 := by
  have hresult : (forward echoCodec {} (fun _ => echo) exampleQueryBytes exampleQuery).2 =
      .ok exampleQueryBytes := by decide
  have hnot : ¬ IsGenuine echoCodec exampleQuery exampleQueryBytes := by
    rintro ⟨m, hm, hgenuine⟩
    have hsame : m = exampleQuery := by
      have hdecodes : echoCodec.fromVec exampleQueryBytes = some exampleQuery := by decide
      exact Option.some.inj (hm.symm.trans hdecodes)
    subst hsame
    exact absurd hgenuine.response (by decide)
  exact ⟨hresult, hnot, fun h => hnot (h.first _ hresult).1⟩

end Netwatch.Dns
