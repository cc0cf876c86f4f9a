import Netwatch.Hickory.Message

/-!
# Fitting an answer into a datagram

`fit_udp` of `dns/mod.rs`: an answer that is larger than the client can receive is replaced by a
stub without records. The stub still has the questions and the OPT record of the answer, and it
is sent whatever its size.

## Main definitions

- `fitUdp` — the answer, its stub or nothing
- `AnswerFits` — what should be sent
- `StubFits` — the questions and options of the answer leave the stub within the limit

## Main results

- `answerFits_iff` — what is sent fits exactly if the stub does
-/

namespace Netwatch.Dns

open RustStd Hickory

/-- The smaller of what the client asked for and what we put on the wire, at least 512. -/
def udpLimit (req : Message) (ourMaxPayload : UInt16) : ℕ :=
  (max (min req.maxPayload ourMaxPayload) 512).toNat

def fitUdp (codec : Codec) (request response : Bytes) (ourMaxPayload : UInt16) : Option Bytes :=
  match codec.fromVec request with
  | none => none
  | some req =>
    if response.length ≤ udpLimit req ourMaxPayload then some response
    else
      match codec.fromVec response with
      | none => none
      | some resp =>
        match codec.toVec resp.truncate with
        | none => none
        | some bytes =>
          if bytes.length ≤ udpLimit req ourMaxPayload then some bytes
          -- logged as still over the limit
          else some bytes

/-- The payload size of the client's OPT record, or 512 without one, capped by ours. -/
def payloadLimit (req : Message) (ourMaxPayload : UInt16) : ℕ :=
  max 512 (min ((req.edns.map fun e => e.maxPayload.toNat).getD 512) ourMaxPayload.toNat)

/-- What is sent is within the limit: the answer itself if it is, and else a stub. -/
structure AnswerFits (codec : Codec) (request response : Bytes) (ourMaxPayload : UInt16) :
    Prop where
  size : ∀ req out, codec.fromVec request = some req →
    fitUdp codec request response ourMaxPayload = some out →
      out.length ≤ payloadLimit req ourMaxPayload
  unchanged : ∀ req, codec.fromVec request = some req →
    response.length ≤ payloadLimit req ourMaxPayload →
      fitUdp codec request response ourMaxPayload = some response
  truncated : ∀ req out, codec.fromVec request = some req →
    payloadLimit req ourMaxPayload < response.length →
      fitUdp codec request response ourMaxPayload = some out →
        ∃ resp stub, codec.fromVec response = some resp ∧ codec.fromVec out = some stub ∧
          stub.metadata.truncation = true ∧ stub.metadata.id = resp.metadata.id ∧
          stub.answers = []

/-- The answer fits by itself, or its stub cannot be encoded or fits. -/
def StubFits (codec : Codec) (questionsSize : List Query → ℕ) (request response : Bytes)
    (ourMaxPayload : UInt16) : Prop :=
  ∀ req resp, codec.fromVec request = some req → codec.fromVec response = some resp →
    response.length ≤ payloadLimit req ourMaxPayload ∨ codec.toVec resp.truncate = none ∨
      12 + questionsSize resp.queries + (resp.edns.map Edns.size).getD 0 ≤
        payloadLimit req ourMaxPayload

theorem toNat_maxUInt16 (a b : UInt16) : (max a b).toNat = max a.toNat b.toNat := by
  show (if a ≤ b then b else a).toNat = _
  split <;> rename_i h <;> rw [UInt16.le_iff_toNat_le] at h <;> omega

theorem toNat_minUInt16 (a b : UInt16) : (min a b).toNat = min a.toNat b.toNat := by
  show (if a ≤ b then a else b).toNat = _
  split <;> rename_i h <;> rw [UInt16.le_iff_toNat_le] at h <;> omega

theorem udpLimit_eq (req : Message) (ourMaxPayload : UInt16) :
    udpLimit req ourMaxPayload = payloadLimit req ourMaxPayload := by
  rw [udpLimit, payloadLimit, Message.maxPayload, toNat_maxUInt16, toNat_minUInt16, toNat_maxUInt16]
  have h512 : (512 : UInt16).toNat = 512 := rfl
  cases req.edns with
  | none =>
    simp only [Option.map_none, Option.getD_none]
    omega
  | some e =>
    simp only [Option.map_some, Option.getD_some]
    omega

section Sent

variable {codec : Codec} {request response : Bytes} {req : Message} {ourMaxPayload : UInt16}

theorem fitUdp_of_small (hreq : codec.fromVec request = some req)
    (hsmall : response.length ≤ payloadLimit req ourMaxPayload) :
    fitUdp codec request response ourMaxPayload = some response := by
  rw [fitUdp, hreq]
  dsimp only
  rw [if_pos ((udpLimit_eq req ourMaxPayload).symm ▸ hsmall)]

/-- The stub of a large answer is sent, also where it is too large. -/
theorem fitUdp_of_large (hreq : codec.fromVec request = some req)
    (hlarge : payloadLimit req ourMaxPayload < response.length) :
    fitUdp codec request response ourMaxPayload =
      (codec.fromVec response).bind fun resp => codec.toVec resp.truncate := by
  rw [fitUdp, hreq]
  dsimp only
  rw [udpLimit_eq, if_neg (not_le.mpr hlarge)]
  cases codec.fromVec response with
  | none => rfl
  | some resp =>
    dsimp only [Option.bind_some]
    cases codec.toVec resp.truncate with
    | none => rfl
    | some bytes => simp only [ite_self]

end Sent

/-- What is sent is as it should be exactly if the answer or its stub is within the limit. -/
theorem answerFits_iff {codec : Codec} {questionsSize : List Query → ℕ}
    (hcodec : codec.Measured questionsSize) (request response : Bytes) (ourMaxPayload : UInt16) :
    AnswerFits codec request response ourMaxPayload ↔
      StubFits codec questionsSize request response ourMaxPayload := by
  -- a stub has the questions of the answer and its EDNS record, and nothing else
  have hstub : ∀ (resp : Message) (out : Bytes), codec.toVec resp.truncate = some out →
      out.length = 12 + questionsSize resp.queries + (resp.edns.map Edns.size).getD 0 :=
    fun resp out hout => hcodec.length resp.truncate out hout rfl rfl rfl
  constructor
  · intro hfits req resp hreq hresp
    by_cases hsmall : response.length ≤ payloadLimit req ourMaxPayload
    · exact .inl hsmall
    · cases hout : codec.toVec resp.truncate with
      | none => exact .inr (.inl rfl)
      | some out =>
        refine .inr (.inr ?_)
        rw [← hstub resp out hout]
        refine hfits.size req out hreq ?_
        rw [fitUdp_of_large hreq (not_le.mp hsmall), hresp, Option.bind_some, hout]
  · intro hstubFits
    refine ⟨fun req out hreq hsent => ?_, fun req hreq => fitUdp_of_small hreq,
      fun req out hreq hlarge hsent => ?_⟩
    · by_cases hsmall : response.length ≤ payloadLimit req ourMaxPayload
      · rw [fitUdp_of_small hreq hsmall] at hsent
        exact Option.some.inj hsent ▸ hsmall
      · rw [fitUdp_of_large hreq (not_le.mp hsmall)] at hsent
        obtain ⟨resp, hresp, hout⟩ := Option.bind_eq_some_iff.mp hsent
        obtain hfit | hnone | hfit := hstubFits req resp hreq hresp
        · exact absurd hfit hsmall
        · rw [hout] at hnone
          cases hnone
        · exact (hstub resp out hout).trans_le hfit
    -- what is sent instead of a large answer is truncated
    · rw [fitUdp_of_large hreq hlarge] at hsent
      obtain ⟨resp, hresp, hout⟩ := Option.bind_eq_some_iff.mp hsent
      exact ⟨resp, resp.truncate, hresp, hcodec.decodes _ _ hout, rfl, rfl, rfl⟩

/-! ### Padded answers -/

/-- `example.com. IN A` as it stands in a question section. -/
def questionBytes : Bytes := [7, 101, 120, 97, 109, 112, 108, 101, 3, 99, 111, 109, 0, 0, 1, 0, 1]

/-- One address for the name in the question. -/
def addressBytes : Bytes := [0xc0, 12, 0, 1, 0, 1, 0, 0, 1, 44, 0, 4, 192, 0, 2, 1]

def address : Record where
  name := exampleName
  ttl := 300
  data := .a (Ipv4Addr.ofOctets 192 0 2 1)

/-- An OPT record with `padding` bytes of padding. -/
def optBytes (padding : ℕ) : Bytes :=
  [0, 0, 41, 4, 208, 0, 0, 0, 0, UInt8.ofNat ((padding + 4) / 256), UInt8.ofNat (padding + 4),
    0, 12, UInt8.ofNat (padding / 256), UInt8.ofNat padding] ++ List.replicate padding 0

/-- An answer with `n` addresses, padded. -/
def paddedAnswer (n padding : ℕ) : Message where
  metadata :=
    { id := 0x1234, messageType := .response, opCode := .query, recursionDesired := true
      recursionAvailable := true }
  queries := exampleQuery.queries
  answers := List.replicate n address
  edns := some { options := [(12, List.replicate padding 0)] }

def answerBytes (n padding : ℕ) : Bytes :=
  [0x12, 0x34, 0x81, 0x80, 0, 1, 0, UInt8.ofNat n, 0, 0, 0, 1] ++ questionBytes ++
    (List.replicate n addressBytes).flatten ++ optBytes padding

def stubBytes (padding : ℕ) : Bytes :=
  [0x12, 0x34, 0x83, 0x80, 0, 1, 0, 0, 0, 0, 0, 1] ++ questionBytes ++ optBytes padding

def paddedCodec (n padding : ℕ) : Codec :=
  .ofTable [(exampleQueryBytes, exampleQuery), (answerBytes n padding, paddedAnswer n padding),
    (stubBytes padding, (paddedAnswer n padding).truncate)]

/-- The size of questions whose names share no suffix. -/
def plainSize (queries : List Query) : ℕ :=
  (queries.map fun q => (q.name.labels.map fun l => l.length + 1).sum + 5).sum

theorem measured_paddedCodec {n : ℕ} (hn : 0 < n) (padding : ℕ) :
    (paddedCodec n padding).Measured plainSize := by
  refine Codec.measured_ofTable ?_ ?_
  · simp [exampleQueryBytes, answerBytes, stubBytes]
  · simp only [List.forall_mem_cons, List.not_mem_nil, false_implies, implies_true, and_true]
    refine ⟨fun _ _ _ => by decide, fun hnone => ?_, fun _ _ _ => ?_⟩
    · have hzero : n = 0 := List.replicate_eq_nil_iff _ |>.mp hnone
      omega
    · have hsize : plainSize exampleQuery.queries = 17 := by decide
      simp only [Message.truncate, paddedAnswer, hsize, Option.map_some, Option.getD_some,
        Edns.size, stubBytes, optBytes, questionBytes, List.length_append, List.length_cons,
        List.length_nil, List.length_replicate, List.map_cons, List.map_nil, List.sum_cons,
        List.sum_nil]
      omega

/-- Forty addresses are replaced by a stub that fits. -/
theorem answerFits_iff_padded :
    AnswerFits (paddedCodec 40 8) exampleQueryBytes (answerBytes 40 8) 1232 := by
  refine (answerFits_iff (measured_paddedCodec (by decide) 8) _ _ _).mpr ?_
  intro req resp hreq hresp
  have hreq' : (paddedCodec 40 8).fromVec exampleQueryBytes = some exampleQuery := by decide
  have hresp' : (paddedCodec 40 8).fromVec (answerBytes 40 8) = some (paddedAnswer 40 8) := by
    decide +kernel
  obtain rfl : req = exampleQuery := Option.some.inj (hreq.symm.trans hreq')
  obtain rfl : resp = paddedAnswer 40 8 := Option.some.inj (hresp.symm.trans hresp')
  exact .inr (.inr (by decide))

/-- The OPT record of an answer, padded by 600 bytes, is sent to a client that takes 512. -/
theorem not_answerFits : (paddedCodec 1 600).Measured plainSize ∧
    ¬ AnswerFits (paddedCodec 1 600) exampleQueryBytes (answerBytes 1 600) 1232 := by
  refine ⟨measured_paddedCodec (by decide) 600, fun hfits => ?_⟩
  have hreq : (paddedCodec 1 600).fromVec exampleQueryBytes = some exampleQuery := by decide
  have hsent : fitUdp (paddedCodec 1 600) exampleQueryBytes (answerBytes 1 600) 1232 =
      some (stubBytes 600) := by
    decide +kernel
  have hsize := hfits.size exampleQuery (stubBytes 600) hreq hsent
  exact absurd hsize (by decide +kernel)

end Netwatch.Dns
