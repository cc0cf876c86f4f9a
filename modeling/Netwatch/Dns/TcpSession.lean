import Netwatch.Dns.Logged
import Netwatch.Framing.Prefix

/-!
# DNS over TCP

The session of `serve_tcp` in `dns/mod.rs`: requests are read from the connection one after the
other, each behind its length, and each is answered before the next is read. The connection is
a script of chunks, so a request may come in any number of pieces and a piece may hold several
requests.

## Main definitions

- `readRequest` — one framed request, if it can be read
- `session` — the bytes written until the session ends
- `answered` — the replies to a list of requests, up to the first that gets none

## Main results

- `session_eq` — the session writes the framed replies, however the requests are cut
- `tcpExchange_session` — what the client half reads back
-/

namespace Netwatch.Dns

open RustStd Hickory Framing

/-- `len.to_be_bytes()` -/
def toBeBytes (n : ℕ) : Bytes := [UInt8.ofNat (n / 256), UInt8.ofNat n]

/-- What `read_exact` left: the bytes, what is left over and the rest of the script. A failure
or a script that ends ends the session. -/
def readOk : Option (ℕ × Except IoError (Bytes × Bytes × Script)) →
    Option (Bytes × Bytes × Script)
  | some (_, .ok r) => some r
  | _ => none

def readRequest (buffered : Bytes) (script : Script) : Option (Bytes × Bytes × Script) :=
  match readOk (readExact 2 buffered script) with
  | none => none
  | some (lenBuf, buffered, script) =>
    let len := bigEndian lenBuf
    if len = 0 ∨ len > 65535 then none
    else readOk (readExact len buffered script)

/-- The loop of the session, where `answer i` is what `handle` makes of the `i`-th request. -/
def sessionLoop (answer : ℕ → Bytes → Option Bytes) : ℕ → ℕ → Bytes → Script → Bytes
  | 0, _, _, _ => []
  | fuel + 1, i, buffered, script =>
    match readRequest buffered script with
    | none => []
    | some (request, buffered, script) =>
      match answer i request with
      | none => []
      | some response =>
        if response.length > 65535 then []
        else toBeBytes response.length ++ response ++
          sessionLoop answer fuel (i + 1) buffered script

/-- The bytes a script delivers before it fails. -/
def received : Script → Bytes
  | [] => []
  | (_, .error _) :: _ => []
  | (_, .ok chunk) :: script => chunk ++ received script

/-- A request takes up three bytes or more, so there are fewer requests than bytes. -/
def session (answer : ℕ → Bytes → Option Bytes) (script : Script) : Bytes :=
  sessionLoop answer (received script).length 0 [] script

/-- The frames of DNS over TCP. -/
def tcpPrefix : LengthPrefix UInt8 where
  width := 2
  max := 65535
  encode := toBeBytes
  decode := bigEndian
  width_pos := by decide
  length_encode := fun _ => rfl
  decode_encode := by
    intro n hn
    simp only [bigEndian, toBeBytes, UInt8.toNat_ofNat']
    omega

/-- The replies to `requests`, numbered from `i`. -/
def answered (answer : ℕ → Bytes → Option Bytes) : ℕ → List Bytes → List Bytes
  | _, [] => []
  | i, request :: requests =>
    match answer i request with
    | none => []
    | some response =>
      if response.length > 65535 then []
      else response :: answered answer (i + 1) requests

/-! ### Reading -/

theorem readExact_of_le {n : ℕ} {buffered : Bytes} {script : Script}
    (h : n ≤ (buffered ++ received script).length) :
    ∃ t rest script', readExact n buffered script =
        some (t, .ok ((buffered ++ received script).take n, rest, script')) ∧
      rest ++ received script' = (buffered ++ received script).drop n := by
  induction script generalizing buffered with
  | nil =>
    rw [received, List.append_nil] at h ⊢
    exact ⟨0, buffered.drop n, [], by rw [readExact, if_pos h], List.append_nil _⟩
  | cons event script ih =>
    obtain ⟨delay, event⟩ := event
    by_cases hn : n ≤ buffered.length
    · refine ⟨0, buffered.drop n, (delay, event) :: script, ?_, ?_⟩
      · rw [readExact.eq_def, List.take_append_of_le_length hn]
        exact if_pos hn
      · rw [List.drop_append_of_le_length hn]
    · cases event with
      | error e =>
        rw [received, List.append_nil] at h
        exact absurd h hn
      | ok chunk =>
        rw [received, ← List.append_assoc] at h ⊢
        obtain ⟨t, rest, script', hread, hrest⟩ := ih h
        refine ⟨delay + t, rest, script', ?_, hrest⟩
        simp only [readExact, if_neg hn, hread, Option.map_some]

theorem readOk_of_lt {n : ℕ} {buffered : Bytes} {script : Script}
    (h : (buffered ++ received script).length < n) :
    readOk (readExact n buffered script) = none := by
  induction script generalizing buffered with
  | nil =>
    rw [received, List.append_nil] at h
    rw [readExact, if_neg (by omega)]
    rfl
  | cons event script ih =>
    obtain ⟨delay, event⟩ := event
    have hn : ¬ n ≤ buffered.length := by
      rw [List.length_append] at h
      omega
    cases event with
    | error e =>
      simp only [readExact, if_neg hn]
      rfl
    | ok chunk =>
      rw [received, ← List.append_assoc] at h
      simp only [readExact, if_neg hn]
      have hrest := ih h
      cases hread : readExact n (buffered ++ chunk) script with
      | none => rfl
      | some r =>
        obtain ⟨t, r⟩ := r
        cases r with
        | error e => rfl
        | ok r => rw [hread] at hrest; cases hrest

theorem bigEndian_le (lenBuf : Bytes) : bigEndian lenBuf ≤ 65535 := by
  match lenBuf with
  | [hi, lo] =>
    have hhi := hi.toNat_lt
    have hlo := lo.toNat_lt
    simp only [bigEndian]
    omega
  | [] | [_] | _ :: _ :: _ :: _ => simp [bigEndian]

section Rounds

variable {buffered body rest : Bytes} {script : Script}

/-- The request is the first body of what is still to be read. -/
theorem readRequest_of_next
    (h : tcpPrefix.next (buffered ++ received script) = some (body, rest)) (hbody : body ≠ []) :
    ∃ buffered' script', readRequest buffered script = some (body, buffered', script') ∧
      buffered' ++ received script' = rest := by
  have hlength := LengthPrefix.length_of_next h
  have hwidth : tcpPrefix.width = 2 := rfl
  obtain ⟨_, mid, script₁, hread₁, hmid⟩ :=
    readExact_of_le (show 2 ≤ (buffered ++ received script).length by omega)
  rw [LengthPrefix.next] at h
  split at h
  · next hlen =>
    obtain ⟨rfl, rfl⟩ := Prod.mk.inj (Option.some.inj h)
    rw [hwidth, ← hmid] at hbody ⊢
    have hle : bigEndian ((buffered ++ received script).take 2) ≤
        (mid ++ received script₁).length := by
      rw [hmid, List.length_drop]
      exact Nat.le_sub_of_add_le' hlen
    obtain ⟨_, rest, script₂, hread₂, hrest⟩ := readExact_of_le hle
    refine ⟨rest, script₂, ?_, hrest⟩
    have hpos : bigEndian ((buffered ++ received script).take 2) ≠ 0 := by
      intro hzero
      refine hbody ?_
      show (mid ++ received script₁).take (bigEndian _) = []
      rw [hzero, List.take_zero]
    have hmax := bigEndian_le ((buffered ++ received script).take 2)
    simp only [readRequest, hread₁, readOk, hread₂]
    rw [if_neg (by omega)]
    rfl
  · cases h

theorem readRequest_of_empty
    (h : tcpPrefix.next (buffered ++ received script) = some ([], rest)) :
    readRequest buffered script = none := by
  have hlength := LengthPrefix.length_of_next h
  have hwidth : tcpPrefix.width = 2 := rfl
  obtain ⟨_, mid, script₁, hread₁, hmid⟩ :=
    readExact_of_le (show 2 ≤ (buffered ++ received script).length by omega)
  rw [LengthPrefix.next] at h
  split at h
  · next hlen =>
    have hbody := (Prod.mk.inj (Option.some.inj h)).1
    have hzero : bigEndian ((buffered ++ received script).take 2) = 0 := by
      have hle : bigEndian ((buffered ++ received script).take 2) ≤
          ((buffered ++ received script).drop 2).length := by
        rw [List.length_drop]
        exact Nat.le_sub_of_add_le' hlen
      rw [← List.length_eq_zero_iff, List.length_take] at hbody
      exact (Nat.min_eq_left hle).symm.trans hbody
    simp only [readRequest, hread₁, readOk, hzero]
    rfl
  · cases h

theorem readRequest_of_next_eq_none
    (h : tcpPrefix.next (buffered ++ received script) = none) :
    readRequest buffered script = none := by
  rw [LengthPrefix.next] at h
  split at h
  · cases h
  · next hlen =>
    by_cases htwo : 2 ≤ (buffered ++ received script).length
    · obtain ⟨_, mid, script₁, hread₁, hmid⟩ := readExact_of_le htwo
      have hlt : (mid ++ received script₁).length <
          bigEndian ((buffered ++ received script).take 2) := by
        rw [hmid, List.length_drop]
        have hlen' : ¬ 2 + bigEndian ((buffered ++ received script).take 2) ≤
          (buffered ++ received script).length := hlen
        omega
      simp only [readRequest, hread₁, readOk]
      split
      · rfl
      · exact readOk_of_lt hlt
    · rw [readRequest, readOk_of_lt (not_le.mp htwo)]

end Rounds

/-! ### Whole sessions -/

/-- The requests in a stream: an empty frame ends the session. -/
def requestsIn (stream : Bytes) : List Bytes :=
  (tcpPrefix.bodies stream).takeWhile fun request => request ≠ []

theorem sessionLoop_eq (answer : ℕ → Bytes → Option Bytes) {fuel : ℕ} (i : ℕ) {buffered : Bytes}
    {script : Script} (hfuel : (buffered ++ received script).length ≤ fuel) :
    sessionLoop answer fuel i buffered script =
      tcpPrefix.frames (answered answer i (requestsIn (buffered ++ received script))) := by
  induction fuel generalizing i buffered script with
  | zero =>
    -- without fuel there are no bytes left
    have hnil : buffered ++ received script = [] := List.length_eq_zero_iff.mp (by omega)
    rw [sessionLoop, hnil, requestsIn, LengthPrefix.bodies_nil]
    rfl
  | succ fuel ih =>
    cases hnext : tcpPrefix.next (buffered ++ received script) with
    | none =>
      -- the connection ends within a frame
      rw [sessionLoop, readRequest_of_next_eq_none hnext, requestsIn,
        LengthPrefix.bodies_of_none hnext]
      rfl
    | some found =>
      obtain ⟨request, rest⟩ := found
      rw [requestsIn, LengthPrefix.bodies_of_some hnext]
      by_cases hempty : request = []
      · subst hempty
        rw [sessionLoop, readRequest_of_empty hnext]
        rfl
      · obtain ⟨buffered', script', hread, hrest⟩ := readRequest_of_next hnext hempty
        -- a frame takes at least its two bytes of length, so the fuel lasts
        have hlength := LengthPrefix.length_of_next hnext
        have hwidth : tcpPrefix.width = 2 := rfl
        rw [List.takeWhile_cons_of_pos (by simpa using hempty)]
        simp only [sessionLoop, hread, answered]
        cases answer i request with
        | none => rfl
        | some response =>
          dsimp only
          split
          · rfl
          · rw [ih (i + 1) (by rw [hrest]; omega), hrest]
            rfl

/-- Whatever pieces the requests come in, and however the connection ends, the session writes
the framed replies to the requests it received, up to the first without one. -/
theorem session_eq (answer : ℕ → Bytes → Option Bytes) (script : Script) :
    session answer script =
      tcpPrefix.frames (answered answer 0 (requestsIn (received script))) :=
  sessionLoop_eq answer 0 le_rfl

theorem length_answered_le (answer : ℕ → Bytes → Option Bytes) (i : ℕ) (requests : List Bytes) :
    ∀ response ∈ answered answer i requests, response.length ≤ 65535 := by
  induction requests generalizing i with
  | nil => simp [answered]
  | cons request requests ih =>
    rw [answered]
    split
    · simp
    · split
      · simp
      · next hle =>
        rw [List.forall_mem_cons]
        exact ⟨not_lt.mp hle, ih (i + 1)⟩

/-- What the client reads are replies to its first requests, in order: all of them, or fewer
where the connection is cut. -/
theorem bodies_session (answer : ℕ → Bytes → Option Bytes) (script : Script) :
    tcpPrefix.bodies (session answer script) =
        answered answer 0 (requestsIn (received script)) ∧
      ∀ n, tcpPrefix.bodies ((session answer script).take n) <+:
        answered answer 0 (requestsIn (received script)) := by
  have hall : tcpPrefix.bodies (session answer script) =
      answered answer 0 (requestsIn (received script)) := by
    rw [session_eq, LengthPrefix.bodies_frames (length_answered_le answer 0 _)]
  refine ⟨hall, fun n => ?_⟩
  rw [← hall]
  exact LengthPrefix.bodies_isPrefix (List.take_prefix n _)

/-! ### The client half -/

/-- What `tcp_exchange` writes. -/
def tcpRequest (wire : Bytes) : Bytes := toBeBytes wire.length ++ wire

theorem requestsIn_append {request : Bytes} (hempty : request ≠ [])
    (hlength : request.length ≤ 65535) (more : Bytes) :
    requestsIn (tcpRequest request ++ more) = request :: requestsIn more := by
  have hnext : tcpPrefix.next (tcpRequest request ++ more) = some (request, more) :=
    LengthPrefix.next_frame_append hlength more
  rw [requestsIn, LengthPrefix.bodies_of_some hnext,
    List.takeWhile_cons_of_pos (by simpa using hempty)]
  rfl

/-- A framed reply is read whatever pieces it comes in. -/
theorem readFramed_of_prefix {response : Bytes} {script : Script} (hempty : response ≠ [])
    (hlength : response.length ≤ 65535)
    (hbegins : tcpPrefix.frame response <+: received script) :
    ∃ t, readFramed script = some (t, .ok response) := by
  obtain ⟨more, hmore⟩ := hbegins
  have hwidth : (toBeBytes response.length).length = 2 := rfl
  have hbytes : received script = toBeBytes response.length ++ (response ++ more) := by
    rw [← hmore, LengthPrefix.frame, List.append_assoc]
    rfl
  have htwo : 2 ≤ ([] ++ received script).length := by
    rw [List.nil_append, hbytes, List.length_append, hwidth]
    omega
  obtain ⟨t₁, mid, script₁, hread₁, hmid⟩ := readExact_of_le htwo
  rw [List.nil_append, hbytes, ← hwidth, List.drop_left] at hmid
  rw [List.nil_append, hbytes, ← hwidth, List.take_left] at hread₁
  have hexpect : bigEndian (toBeBytes response.length) = response.length :=
    tcpPrefix.decode_encode _ hlength
  have hle : response.length ≤ (mid ++ received script₁).length := by
    rw [hmid, List.length_append]
    omega
  obtain ⟨t₂, rest, script₂, hread₂, -⟩ := readExact_of_le hle
  rw [hmid, List.take_left] at hread₂
  refine ⟨t₁ + t₂, ?_⟩
  rw [hwidth] at hread₁
  simp only [readFramed, hread₁, hexpect, hread₂]
  rw [if_neg (mt List.length_eq_zero_iff.mp hempty)]

/-- One instance is the upstream of another over TCP: whatever pieces the request and the reply
come in, the reply is the one that was made for the request. -/
theorem tcpExchange_session {answer : ℕ → Bytes → Option Bytes} {wire response : Bytes}
    {toServer toClient : Script} {more : Bytes} (hwire : wire ≠ []) (hsize : wire.length ≤ 65535)
    (hanswer : answer 0 wire = some response) (hresponse : response ≠ [])
    (hlength : response.length ≤ 65535) (hserver : received toServer = tcpRequest wire ++ more)
    (hclient : session answer toServer <+: received toClient) (connected : ℕ) :
    ∃ t, tcpExchange wire (some (connected, .ok toClient)) = some (t, .ok response) := by
  have hreplies : answered answer 0 (requestsIn (received toServer)) =
      response :: answered answer 1 (requestsIn more) := by
    rw [hserver, requestsIn_append hwire hsize]
    simp only [answered, hanswer]
    rw [if_neg (not_lt.mpr hlength)]
  have hbegins : tcpPrefix.frame response <+: received toClient := by
    refine List.IsPrefix.trans ?_ hclient
    rw [session_eq, hreplies]
    exact List.prefix_append _ _
  obtain ⟨t, hread⟩ := readFramed_of_prefix hresponse hlength hbegins
  refine ⟨connected + t, ?_⟩
  rw [tcpExchange, if_neg (not_lt.mpr hsize), hread]
  rfl

/-- Every request is answered with SERVFAIL, after a second of silent upstreams. -/
def servFailAnswer (_ : ℕ) (request : Bytes) : Option Bytes :=
  (impatientResolver.handle (silentEnv servFailTable) denyAds request anyClient).reply

/-- The request comes in two pieces and the reply in three. -/
theorem tcpExchange_session_pieces :
    ∃ t, tcpExchange exampleQueryBytes (some (3, .ok
        [(1, .ok [0]), (1, .ok (29 :: servFailBytes.take 5)), (1, .ok (servFailBytes.drop 5))])) =
      some (t, .ok servFailBytes) := by
  have hanswer : servFailAnswer 0 exampleQueryBytes = some servFailBytes := rfl
  have hserver : received [(0, .ok [0, 29]), (7, .ok exampleQueryBytes)] =
      tcpRequest exampleQueryBytes ++ [] := rfl
  have hsession : session servFailAnswer [(0, .ok [0, 29]), (7, .ok exampleQueryBytes)] =
      0 :: 29 :: servFailBytes := by decide
  have hclient : session servFailAnswer [(0, .ok [0, 29]), (7, .ok exampleQueryBytes)] <+:
      received [(1, .ok [0]), (1, .ok (29 :: servFailBytes.take 5)),
        (1, .ok (servFailBytes.drop 5))] := by
    rw [hsession]
    exact List.prefix_rfl
  exact tcpExchange_session (by decide) (by decide) hanswer (by decide) (by decide) hserver
    hclient 3

end Netwatch.Dns
