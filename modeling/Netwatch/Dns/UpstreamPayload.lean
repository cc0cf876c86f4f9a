import Netwatch.Dns.FitUdp
import Netwatch.Dns.Forward

/-!
# What is asked of an upstream

`clamp_upstream_payload` decides how large an answer the request that goes upstream permits, and
`udp_exchange` allocates the buffer for it. Each has the floor of 512 bytes in its own place:
hickory raises the clamped size to it, and the buffer is never smaller.

## Main definitions

- `recvBuffer` — the buffer of `udp_exchange`
- `clamped` — the request as it is encoded again
- `AsksWithinMeans` — the request that is sent permits no more than can be received

## Main results

- `asksWithinMeans` — every request that can be encoded again is sent that way
-/

namespace Netwatch.Dns

open RustStd Hickory

/-- `(limit as usize).max(512)` -/
def recvBuffer (limit : UInt16) : ℕ := max limit.toNat 512

/-- What goes to the wire when the client permits more than the limit. -/
def clamped (parsed : Message) (limit : UInt16) : Message :=
  { parsed with edns := parsed.edns.map fun e => e.setMaxPayload limit }

/-- The client permits more than the limit. -/
def ExceedsLimit (parsed : Message) (limit : UInt16) : Prop :=
  ∃ e, parsed.edns = some e ∧ limit < e.maxPayload

/-- The bytes that `forward` sends, to whichever server, permit answers that fit the buffer. -/
structure AsksWithinMeans (codec : Codec) (cfg : DnsConfig) (request : Bytes) (parsed : Message)
    (wire : Bytes) : Prop where
  sent : ∀ net, forward codec cfg net request parsed =
    forwardTo codec wire parsed cfg.upstreamUdpPayload cfg.upstreamTimeoutMs.toNat
      (upstreamsOf cfg net) .noUpstreams
  advertised : ∃ m, codec.fromVec wire = some m ∧
    m.maxPayload.toNat ≤ recvBuffer cfg.upstreamUdpPayload ∧
      m.metadata.id = parsed.metadata.id ∧ m.queries = parsed.queries
  unchanged : ¬ ExceedsLimit parsed cfg.upstreamUdpPayload → wire = request
  /-- Of a server that keeps to the advertised size no datagram is clipped, so that no larger
  buffer would receive more. -/
  received : ∀ m script, codec.fromVec wire = some m →
    (∀ event ∈ script, ∀ datagram, event.2 = .ok datagram →
      datagram.length ≤ m.maxPayload.toNat) →
    ∀ n, recvBuffer cfg.upstreamUdpPayload ≤ n →
      udpExchange wire cfg.upstreamUdpPayload script = recvReply wire n script

/-! ### The two sizes -/

section Sizes

variable {parsed : Message} {limit : UInt16}

theorem maxPayload_le_of_not_exceedsLimit (h : ¬ ExceedsLimit parsed limit) :
    parsed.maxPayload.toNat ≤ recvBuffer limit := by
  rw [Message.maxPayload, toNat_maxUInt16, recvBuffer]
  have h512 : (512 : UInt16).toNat = 512 := rfl
  cases hedns : parsed.edns with
  | none =>
    rw [Option.map_none, Option.getD_none]
    omega
  | some e =>
    have hle : e.maxPayload.toNat ≤ limit.toNat := by
      by_contra hlt
      exact h ⟨e, hedns, UInt16.lt_iff_toNat_lt.mpr (not_le.mp hlt)⟩
    rw [Option.map_some, Option.getD_some]
    omega

/-- A limit below 512 is raised on both sides. -/
theorem maxPayload_clamped_le (parsed : Message) (limit : UInt16) :
    (clamped parsed limit).maxPayload.toNat ≤ recvBuffer limit := by
  have h512 : (512 : UInt16).toNat = 512 := rfl
  rw [Message.maxPayload, toNat_maxUInt16, recvBuffer, clamped]
  cases parsed.edns with
  | none =>
    rw [Option.map_none, Option.map_none, Option.getD_none]
    omega
  | some e =>
    rw [Option.map_some, Option.map_some, Option.getD_some, Edns.setMaxPayload, toNat_maxUInt16]
    omega

theorem any_maxPayload_iff :
    (parsed.edns.any fun e => decide (e.maxPayload > limit)) = true ↔
      ExceedsLimit parsed limit := by
  simp only [Option.any_eq_true, decide_eq_true_eq, ExceedsLimit, gt_iff_lt]

end Sizes

section Clamp

variable {codec : Codec} {request : Bytes} {parsed : Message} {limit : UInt16}

theorem clampUpstreamPayload_of_not_exceedsLimit (codec : Codec) (request : Bytes)
    (h : ¬ ExceedsLimit parsed limit) :
    clampUpstreamPayload codec request parsed limit = request := by
  have hany := Bool.eq_false_iff.mpr (any_maxPayload_iff.not.mpr h)
  rw [clampUpstreamPayload, hany]
  rfl

theorem clampUpstreamPayload_of_exceedsLimit (request : Bytes) (h : ExceedsLimit parsed limit)
    {bytes : Bytes} (hencode : codec.toVec (clamped parsed limit) = some bytes) :
    clampUpstreamPayload codec request parsed limit = bytes := by
  have hany := any_maxPayload_iff.mpr h
  rw [clamped] at hencode
  rw [clampUpstreamPayload, hany]
  simp [hencode]

end Clamp

/-- A buffer that holds every datagram receives them as they are. -/
theorem recvReply_of_le (wire : Bytes) {n n' : ℕ} {script : Script}
    (h : ∀ event ∈ script, ∀ datagram, event.2 = .ok datagram → datagram.length ≤ n)
    (hle : n ≤ n') : recvReply wire n script = recvReply wire n' script := by
  induction script with
  | nil => rfl
  | cons event script ih =>
    obtain ⟨delay, outcome⟩ := event
    have htail := ih fun e he => h e (List.mem_cons_of_mem _ he)
    cases outcome with
    | error e => rfl
    | ok datagram =>
      have hlen := h (delay, .ok datagram) List.mem_cons_self datagram rfl
      rw [recvReply, recvReply, List.take_of_length_le hlen,
        List.take_of_length_le (hlen.trans hle), htail]

/-- What the request that is sent says, clamped or not. -/
theorem fromVec_clampUpstreamPayload {codec : Codec}
    (hcodec : ∀ m bytes, codec.toVec m = some bytes → codec.fromVec bytes = some m)
    {request : Bytes} {parsed : Message} {limit : UInt16}
    (hdecode : codec.fromVec request = some parsed)
    (hencode : ExceedsLimit parsed limit → codec.toVec (clamped parsed limit) ≠ none) :
    ∃ m, codec.fromVec (clampUpstreamPayload codec request parsed limit) = some m ∧
      m.maxPayload.toNat ≤ recvBuffer limit ∧ m.metadata.id = parsed.metadata.id ∧
        m.queries = parsed.queries := by
  by_cases hexceeds : ExceedsLimit parsed limit
  · obtain ⟨bytes, hbytes⟩ := Option.ne_none_iff_exists'.mp (hencode hexceeds)
    refine ⟨clamped parsed limit, ?_, maxPayload_clamped_le parsed limit, rfl, rfl⟩
    rw [clampUpstreamPayload_of_exceedsLimit request hexceeds hbytes]
    exact hcodec _ _ hbytes
  · refine ⟨parsed, ?_, maxPayload_le_of_not_exceedsLimit hexceeds, rfl, rfl⟩
    rw [clampUpstreamPayload_of_not_exceedsLimit codec request hexceeds]
    exact hdecode

theorem asksWithinMeans {codec : Codec}
    (hcodec : ∀ m bytes, codec.toVec m = some bytes → codec.fromVec bytes = some m)
    (cfg : DnsConfig) {request : Bytes} {parsed : Message}
    (hdecode : codec.fromVec request = some parsed)
    (hencode : ExceedsLimit parsed cfg.upstreamUdpPayload →
      codec.toVec (clamped parsed cfg.upstreamUdpPayload) ≠ none) :
    AsksWithinMeans codec cfg request parsed
      (clampUpstreamPayload codec request parsed cfg.upstreamUdpPayload) := by
  have hwire := fromVec_clampUpstreamPayload hcodec hdecode hencode
  refine ⟨fun _ => rfl, hwire, clampUpstreamPayload_of_not_exceedsLimit codec request, ?_⟩
  intro m script hm hshort n hn
  obtain ⟨m', hm', hfits, -⟩ := hwire
  obtain rfl := Option.some.inj (hm.symm.trans hm')
  exact recvReply_of_le _ (fun event hevent datagram hok =>
    (hshort event hevent datagram hok).trans hfits) hn

/-- A request that permits answers of `size` bytes. -/
def asking (size : UInt16) : Message := { exampleQuery with edns := some { maxPayload := size } }

def askingBytes (high low : UInt8) : Bytes :=
  [0x12, 0x34, 0x01, 0x00, 0, 1, 0, 0, 0, 0, 0, 1] ++ questionBytes ++
    [0, 0, 41, high, low, 0, 0, 0, 0, 0, 0]

/-- A client that permits 64 KiB, under a limit that is below the floor. -/
theorem asksWithinMeans_greedy :
    AsksWithinMeans (.ofTable [(askingBytes 255 255, asking 65535), (askingBytes 2 0, asking 512)])
      { upstreamUdpPayload := 400 } (askingBytes 255 255) (asking 65535) (askingBytes 2 0) :=
  asksWithinMeans (fun _ _ => Codec.fromVec_of_toVec_ofTable (by decide))
    { upstreamUdpPayload := 400 } (by decide) fun _ => by decide

end Netwatch.Dns
