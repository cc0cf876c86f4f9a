import Netwatch.Config
import Netwatch.Hickory.Message

/-!
# Asking upstream

`Resolver::forward` of `dns/mod.rs` with the two exchanges it is made of. What a server does is
a script of events on its socket, each after a delay in milliseconds; a script that ends is a
server that stays silent. The request is sent to each server in turn, and each has
`upstream_timeout_ms` on a virtual clock.

## Main definitions

- `udpExchange`, `tcpExchange` — one round trip
- `attempt` — UDP, and TCP when the UDP reply is truncated
- `answersRequest` — the acceptance test
- `forward` — the first server whose reply passes it
-/

namespace Netwatch.Dns

open RustStd Hickory

/-- Failures of a socket operation, by the context the source attaches. -/
inductive IoError
  /-- `binding upstream socket` -/
  | bind
  /-- `connecting upstream`, `connecting upstream over TCP` -/
  | connect
  /-- `sending to upstream`, `sending TCP length prefix`, `sending TCP request` -/
  | send
  /-- `reading upstream reply`, `reading TCP length prefix`, `reading TCP response body` -/
  | read
  /-- `request too large for DNS/TCP` -/
  | requestTooLarge
  /-- `upstream sent an empty TCP response` -/
  | emptyResponse
  deriving DecidableEq

/-- Events on a socket, each with the delay since the one before. -/
abbrev Script := List (ℕ × Except IoError Bytes)

/-- What becomes of an exchange: nothing, or an outcome after some time. -/
abbrev Exchange := Option (ℕ × Except IoError Bytes)

def Exchange.after (delay : ℕ) (e : Exchange) : Exchange := e.map fun r => (delay + r.1, r.2)

/-- What a server does while it is asked. -/
structure Peer where
  /-- Datagrams that reach the UDP socket. -/
  udp : Script
  /-- What connecting over TCP comes to, and the chunks then read. -/
  tcp : Option (ℕ × Except IoError Script)

/-- A configured server and its behaviour. -/
structure Upstream extends Peer where
  addr : SocketAddr

/-- The configured servers, where `net i` is what the `i`-th of them does. -/
def upstreamsOf (cfg : DnsConfig) (net : ℕ → Peer) : List Upstream :=
  cfg.upstreams.zipIdx.map fun u => { net u.2 with addr := u.1 }

inductive ForwardError
  /-- `no upstreams configured` -/
  | noUpstreams
  | io (cause : IoError)
  /-- `upstream {upstream} answered a different question` -/
  | differentQuestion (upstream : SocketAddr)
  /-- `undecodable reply from {upstream}: {e}` -/
  | undecodable (upstream : SocketAddr)
  /-- `upstream {upstream} timed out` -/
  | timedOut (upstream : SocketAddr)
  deriving DecidableEq

/-- The request with its EDNS payload size clamped to `limit`; the original bytes when there
is nothing to clamp. -/
def clampUpstreamPayload (codec : Codec) (request : Bytes) (parsed : Message) (limit : UInt16) :
    Bytes :=
  let needsClamp := parsed.edns.any fun e => e.maxPayload > limit
  if !needsClamp then request
  else
    let m := { parsed with edns := parsed.edns.map fun e => e.setMaxPayload limit }
    (codec.toVec m).getD request

/-- The receive loop of `udp_exchange`: replies under another transaction ID are discarded. -/
def recvReply (wire : Bytes) (bufLen : ℕ) : Script → Exchange
  | [] => none
  | (delay, .error e) :: _ => some (delay, .error e)
  | (delay, .ok datagram) :: script =>
    -- the kernel clips a datagram to the buffer
    let buf := datagram.take bufLen
    if buf.length ≥ 2 ∧ buf.take 2 = wire.take 2 then some (delay, .ok buf)
    else (recvReply wire bufLen script).after delay

def udpExchange (wire : Bytes) (limit : UInt16) (script : Script) : Exchange :=
  recvReply wire (max limit.toNat 512) script

/-- `read_exact`: what was read, with what is left over and the rest of the script. -/
def readExact (n : ℕ) :
    Bytes → Script → Option (ℕ × Except IoError (Bytes × Bytes × Script))
  | buffered, [] =>
    if n ≤ buffered.length then some (0, .ok (buffered.take n, buffered.drop n, [])) else none
  | buffered, (delay, event) :: script =>
    if n ≤ buffered.length then
      some (0, .ok (buffered.take n, buffered.drop n, (delay, event) :: script))
    else match event with
      | .error e => some (delay, .error e)
      | .ok chunk =>
        (readExact n (buffered ++ chunk) script).map fun r => (delay + r.1, r.2)

/-- A two-byte big-endian length precedes the message. -/
def bigEndian : Bytes → ℕ
  | [hi, lo] => hi.toNat * 256 + lo.toNat
  | _ => 0

/-- Read the framed reply. -/
def readFramed (script : Script) : Exchange :=
  match readExact 2 [] script with
  | none => none
  | some (t, .error e) => some (t, .error e)
  | some (t, .ok (lenBuf, buffered, script)) =>
    let expect := bigEndian lenBuf
    if expect = 0 then some (t, .error .emptyResponse)
    else match readExact expect buffered script with
      | none => none
      | some (t', .error e) => some (t + t', .error e)
      | some (t', .ok (reply, _)) => some (t + t', .ok reply)

def tcpExchange (wire : Bytes) : Option (ℕ × Except IoError Script) → Exchange
  | none => none
  | some (t, .error e) => some (t, .error e)
  | some (t, .ok script) =>
    if wire.length > 65535 then some (t, .error .requestTooLarge)
    else (readFramed script).after t

/-- A truncated UDP answer is not an answer: the same server is asked again over TCP. -/
def attempt (codec : Codec) (wire : Bytes) (limit : UInt16) (upstream : Upstream) : Exchange :=
  match udpExchange wire limit upstream.udp with
  | none => none
  | some (t, .error e) => some (t, .error e)
  | some (t, .ok reply) =>
    if (codec.fromVec reply).any fun m => m.metadata.truncation then
      (tcpExchange wire upstream.tcp).after t
    else some (t, .ok reply)

/-- `tokio::time::timeout`: an outcome that comes in time. -/
def withTimeout (timeout : ℕ) (e : Exchange) : Exchange := e.filter fun r => r.1 ≤ timeout

def answersRequest (codec : Codec) (req resp : Message) : Bool :=
  if resp.metadata.id ≠ req.metadata.id then false
  else match req.queries.head?, resp.queries.head? with
    | some q, some a =>
      q.queryType == a.queryType && q.queryClass == a.queryClass &&
        Str.eqIgnoreAsciiCase (codec.toAscii q.name) (codec.toAscii a.name)
    | _, _ => false

/-- The loop of `forward`, with the time it takes and the error of the last attempt. -/
def forwardTo (codec : Codec) (wire : Bytes) (parsed : Message) (limit : UInt16) (timeout : ℕ) :
    List Upstream → ForwardError → ℕ × Except ForwardError Bytes
  | [], lastErr => (0, .error lastErr)
  | upstream :: upstreams, _ =>
    let next (t : ℕ) (e : ForwardError) :=
      let r := forwardTo codec wire parsed limit timeout upstreams e
      (t + r.1, r.2)
    match withTimeout timeout (attempt codec wire limit upstream) with
    | some (t, .ok reply) =>
      match codec.fromVec reply with
      | some m =>
        if answersRequest codec parsed m then (t, .ok reply)
        else next t (.differentQuestion upstream.addr)
      | none => next t (.undecodable upstream.addr)
    | some (t, .error e) => next t (.io e)
    | none => next timeout (.timedOut upstream.addr)

def forward (codec : Codec) (cfg : DnsConfig) (net : ℕ → Peer) (request : Bytes)
    (parsed : Message) : ℕ × Except ForwardError Bytes :=
  let limit := cfg.upstreamUdpPayload
  let wire := clampUpstreamPayload codec request parsed limit
  forwardTo codec wire parsed limit cfg.upstreamTimeoutMs.toNat (upstreamsOf cfg net) .noUpstreams

end Netwatch.Dns
