import Netwatch.Dns.FitUdp
import Netwatch.Dns.Outcome
import Netwatch.Interleaving.Run
import Netwatch.Permits.Semaphore

/-!
# The DNS servers

`serve_udp`, `serve_tcp` and `cache_sweeper` of `dns/mod.rs`, as `main` spawns them, with the
tasks they spawn. Every datagram and every connection is served by a task of its own, and the
tasks share the resolver. What a task does between two waits is one event of a run; the events
of different tasks come in any order.

## Main definitions

- `Server` — the resolver's state, the free permits and the tasks, with what has been read,
  sent and logged so far
- `step` — one event
- `Change` — what an event can do to the server
- `Sound` — a task that waits was suspended in the state it remembers

## Main results

- `change_step`, `sound_run` — every event of a run does one of the things listed
-/

namespace Netwatch.Dns

open RustStd Hickory Interleaving

inductive Transport
  | udp
  | tcp
  deriving DecidableEq

/-- A socket of ours. -/
structure Listener where
  transport : Transport
  addr : SocketAddr
  deriving DecidableEq

/-- The permits of its semaphore. -/
def limit (cfg : DnsConfig) (l : Listener) : ℕ :=
  match l.transport with
  | .udp => cfg.maxUdpInFlight
  | .tcp => cfg.maxTcpConnections

/-- Where a task is. A request goes by its number in the order in which requests are read. -/
inductive Stage
  /-- A connection waits for its next frame. -/
  | reading
  /-- A request has been read. -/
  | ready (number : ℕ) (request : Bytes)
  /-- The request waits for an upstream; `found` is the state it was handled in. -/
  | waiting (number : ℕ) (request : Bytes) (env : Env) (found : State)

/-- A task and the permit it owns. -/
structure Task where
  listener : Listener
  peer : SocketAddr
  stage : Stage

/-- A request as it was read. -/
structure Asked where
  listener : Listener
  peer : SocketAddr
  request : Bytes
  deriving DecidableEq

/-- A reply as it was handed to the socket; over TCP it is framed. -/
structure Sent where
  number : ℕ
  listener : Listener
  peer : SocketAddr
  message : Bytes
  deriving DecidableEq

structure Server where
  shared : State
  free : Listener → ℕ
  tasks : List Task := []
  /-- The connections that were given a session. -/
  opened : List (Listener × SocketAddr) := []
  asked : List Asked := []
  sent : List Sent := []
  /-- The events handed to the writer. -/
  log : List QueryEvent := []

/-- The server as `main` starts it. -/
def Server.start (r : Resolver) (blocklist : Blocklist) (cache : Cache) : Server where
  shared := { blocklist, cache }
  free := limit r.cfg

inductive Event
  | datagram (addr peer : SocketAddr) (payload : Bytes)
  | connection (addr peer : SocketAddr)
  /-- The `n`-th task has read a frame. -/
  | frame (n : ℕ) (request : Bytes)
  /-- The `n`-th task handles its request, up to the wait for an upstream. -/
  | handle (n : ℕ) (env : Env)
  /-- The wait of the `n`-th task is over: an upstream answered, or the budget ran out. -/
  | wake (n : ℕ)
  /-- The `n`-th task ends before it has a reply: the connection is closed or has been open for
  thirty seconds, or the task panics. -/
  | drop (n : ℕ)
  /-- A tick of `cache_sweeper`. -/
  | sweep (now : ℕ)
  /-- `flush_cache`, after a change of the rules or on demand. -/
  | flushCache
  /-- Another blocklist is swapped in. -/
  | swap (blocklist : Blocklist)

namespace Server

def shareCount (s : Server) (f : Stats → Stats) : Server := { s with shared := s.shared.count f }

def noteUdpOverload (s : Server) : Server :=
  s.shareCount fun st => { st with udpOverloadDrops := st.udpOverloadDrops + 1 }

def noteTcpRejection (s : Server) : Server :=
  s.shareCount fun st => { st with tcpRejections := st.tcpRejections + 1 }

/-- The loop of `serve_udp`, from one datagram to the next. -/
def recvUdp (r : Resolver) (s : Server) (addr peer : SocketAddr) (payload : Bytes) : Server :=
  let l : Listener := ⟨.udp, addr⟩
  let allowed := r.allows s.shared peer.ip
  let s := { s with shared := allowed.2 }
  if !allowed.1 then s
  else match Permits.tryAcquire s.free l with
    | none => s.noteUdpOverload
    | some free =>
      -- the kernel clips a datagram to the buffer
      let request := payload.take 4096
      { s with
        free
        tasks := s.tasks ++ [⟨l, peer, .ready s.asked.length request⟩]
        asked := s.asked ++ [⟨l, peer, request⟩] }

/-- The loop of `serve_tcp`, from one connection to the next. -/
def acceptTcp (r : Resolver) (s : Server) (addr peer : SocketAddr) : Server :=
  let l : Listener := ⟨.tcp, addr⟩
  let allowed := r.allows s.shared peer.ip
  let s := { s with shared := allowed.2 }
  if !allowed.1 then s
  else match Permits.tryAcquire s.free l with
    | none => s.noteTcpRejection
    | some free =>
      { s with
        free
        tasks := s.tasks ++ [⟨l, peer, .reading⟩]
        opened := s.opened ++ [(l, peer)] }

/-- The session of the `n`-th task reads a frame. -/
def readFrame (s : Server) (n : ℕ) (request : Bytes) : Server :=
  match s.tasks[n]? with
  | some ⟨l, peer, .reading⟩ =>
    { s with
      tasks := s.tasks.set n ⟨l, peer, .ready s.asked.length request⟩
      asked := s.asked ++ [⟨l, peer, request⟩] }
  | _ => s

/-- The task is over and gives its permit back. -/
def endTask (s : Server) (n : ℕ) (t : Task) : Server :=
  { s with free := Permits.release s.free t.listener, tasks := s.tasks.eraseIdx n }

def send (s : Server) (number : ℕ) (t : Task) (message : Bytes) : Server :=
  { s with sent := s.sent ++ [⟨number, t.listener, t.peer, message⟩] }

/-- What the `n`-th task does with the outcome of `handle`. -/
def reply (r : Resolver) (codec : Codec) (s : Server) (n number : ℕ) (t : Task) (request : Bytes)
    (out : Served) : Server :=
  let s := { s with shared := out.state, log := s.log ++ events out }
  match t.listener.transport with
  | .udp =>
    let fitted := out.reply.bind fun response =>
      fitUdp codec request response r.cfg.upstreamUdpPayload
    match fitted with
    | some message => (s.send number t message).endTask n t
    | none => s.endTask n t
  | .tcp =>
    match out.reply with
    | some response =>
      if response.length > 65535 then s.endTask n t
      else { s.send number t response with tasks := s.tasks.set n { t with stage := .reading } }
    | none => s.endTask n t

/-- A request is handled up to its wait, or to its end if it does not wait. -/
def handle (r : Resolver) (codec : Codec) (s : Server) (n : ℕ) (env : Env) : Server :=
  let env := { env with codec }
  match s.tasks[n]? with
  | some ⟨l, peer, .ready number request⟩ =>
    match r.handleInner env s.shared request peer with
    | .done out => s.reply r codec n number ⟨l, peer, .ready number request⟩ request out
    | .waiting st _ _ _ =>
      { s with
        shared := st
        tasks := s.tasks.set n ⟨l, peer, .waiting number request env s.shared⟩ }
  | _ => s

/-- A request goes on after its wait, in the state that is there now. -/
def wake (r : Resolver) (codec : Codec) (s : Server) (n : ℕ) : Server :=
  match s.tasks[n]? with
  | some ⟨l, peer, .waiting number request env found⟩ =>
    s.reply r codec n number ⟨l, peer, .waiting number request env found⟩ request
      (r.handle (env.during fun _ => s.shared) found request peer)
  | _ => s

def dropTask (s : Server) (n : ℕ) : Server :=
  match s.tasks[n]? with
  | some t => s.endTask n t
  | none => s

end Server

def step (r : Resolver) (codec : Codec) (e : Event) (s : Server) : Server :=
  match e with
  | .datagram addr peer payload => s.recvUdp r addr peer payload
  | .connection addr peer => s.acceptTcp r addr peer
  | .frame n request => s.readFrame n request
  | .handle n env => s.handle r codec n env
  | .wake n => s.wake r codec n
  | .drop n => s.dropTask n
  | .sweep now => { s with shared := { s.shared with cache := s.shared.cache.sweep now } }
  | .flushCache => { s with shared := { s.shared with cache := s.shared.cache.clear } }
  | .swap blocklist => { s with shared := { s.shared with blocklist } }

/-! ### What an event can do -/

def arrival : Event → Option (Listener × SocketAddr)
  | .datagram addr peer _ => some (⟨.udp, addr⟩, peer)
  | .connection addr peer => some (⟨.tcp, addr⟩, peer)
  | _ => none

/-- How a handled request can be missing from the log. -/
inductive Lost
  /-- It was answered without being looked up, or not at all. -/
  | declined
  /-- Its task ended during the wait. -/
  | abandoned
  deriving DecidableEq

def lost (codec : Codec) (e : Event) (s : Server) : Option Lost :=
  match e with
  | .handle n _ =>
    match s.tasks[n]? with
    | some ⟨_, _, .ready _ request⟩ => if Declined codec request then some .declined else none
    | _ => none
  | .drop n =>
    match s.tasks[n]? with
    | some ⟨_, _, .waiting _ _ _ _⟩ => some .abandoned
    | _ => none
  | _ => none

/-- The counter of arrivals that find no permit. -/
def Transport.countFull (t : Transport) (st : Stats) : Stats :=
  match t with
  | .udp => { st with udpOverloadDrops := st.udpOverloadDrops + 1 }
  | .tcp => { st with tcpRejections := st.tcpRejections + 1 }

inductive Change (r : Resolver) (codec : Codec) (s : Server) : Event → Server → Prop
  | quiet {e : Event} (shared : State) (hstats : shared.stats = s.shared.stats)
      (harrival : arrival e = none) (hlost : lost codec e s = none) :
      Change r codec s e { s with shared }
  | denied {e : Event} {l : Listener} {peer : SocketAddr} (harrival : arrival e = some (l, peer))
      (hacl : r.acl.allows peer.ip = false) :
      Change r codec s e (s.shareCount fun st => { st with denied := st.denied + 1 })
  | full {e : Event} {l : Listener} {peer : SocketAddr} (harrival : arrival e = some (l, peer))
      (hacl : r.acl.allows peer.ip = true) (hfree : Permits.tryAcquire s.free l = none) :
      Change r codec s e (s.shareCount l.transport.countFull)
  | datagram {addr peer : SocketAddr} {payload : Bytes} {free : Listener → ℕ}
      (hacl : r.acl.allows peer.ip = true)
      (hfree : Permits.tryAcquire s.free ⟨.udp, addr⟩ = some free) :
      Change r codec s (.datagram addr peer payload)
        { s with
          free
          tasks := s.tasks ++ [⟨⟨.udp, addr⟩, peer, .ready s.asked.length (payload.take 4096)⟩]
          asked := s.asked ++ [⟨⟨.udp, addr⟩, peer, payload.take 4096⟩] }
  | connection {addr peer : SocketAddr} {free : Listener → ℕ}
      (hacl : r.acl.allows peer.ip = true)
      (hfree : Permits.tryAcquire s.free ⟨.tcp, addr⟩ = some free) :
      Change r codec s (.connection addr peer)
        { s with
          free
          tasks := s.tasks ++ [⟨⟨.tcp, addr⟩, peer, .reading⟩]
          opened := s.opened ++ [(⟨.tcp, addr⟩, peer)] }
  | frame {n : ℕ} {l : Listener} {peer : SocketAddr} {request : Bytes}
      (htask : s.tasks[n]? = some ⟨l, peer, .reading⟩) :
      Change r codec s (.frame n request)
        { s with
          tasks := s.tasks.set n ⟨l, peer, .ready s.asked.length request⟩
          asked := s.asked ++ [⟨l, peer, request⟩] }
  | suspended {n : ℕ} {l : Listener} {peer : SocketAddr} {number : ℕ} {request : Bytes}
      {env : Env} {st : State} (htask : s.tasks[n]? = some ⟨l, peer, .ready number request⟩)
      (hst : Suspended r { env with codec } s.shared request peer st) :
      Change r codec s (.handle n env)
        { s with
          shared := st
          tasks := s.tasks.set n ⟨l, peer, .waiting number request { env with codec } s.shared⟩ }
  | decided {n : ℕ} {l : Listener} {peer : SocketAddr} {number : ℕ} {request : Bytes}
      {env : Env} {o : Outcome} {out : Served}
      (htask : s.tasks[n]? = some ⟨l, peer, .ready number request⟩)
      (ho : o = .declined ↔ Declined codec request)
      (hends : EndsAs codec request s.shared.stats.begin o out) :
      Change r codec s (.handle n env)
        (s.reply r codec n number ⟨l, peer, .ready number request⟩ request out)
  | woken {n : ℕ} {l : Listener} {peer : SocketAddr} {number : ℕ} {request : Bytes}
      {env : Env} {found : State} {o : Outcome} {out : Served}
      (htask : s.tasks[n]? = some ⟨l, peer, .waiting number request env found⟩)
      (ho : o ≠ .declined) (hends : EndsAs codec request s.shared.stats o out) :
      Change r codec s (.wake n)
        (s.reply r codec n number ⟨l, peer, .waiting number request env found⟩ request out)
  | dropped {n : ℕ} {t : Task} (htask : s.tasks[n]? = some t) :
      Change r codec s (.drop n) (s.endTask n t)

/-- The server after a task has sent `message`, if anything, as the outcome of `handle`. -/
def Server.after (s : Server) (number : ℕ) (t : Task) (out : Served) (message : Option Bytes) :
    Server :=
  { s with
    shared := out.state
    log := s.log ++ events out
    sent := s.sent ++ (message.map (Sent.mk number t.listener t.peer)).toList }

/-- What a task remembers of its wait is right, and only a connection reads on. -/
def Task.Sound (r : Resolver) (codec : Codec) (t : Task) : Prop :=
  match t.stage with
  | .waiting _ request env found =>
    env.codec = codec ∧ ∃ st, Suspended r env found request t.peer st
  | .reading => t.listener.transport = .tcp
  | .ready _ _ => True

def Sound (r : Resolver) (codec : Codec) (s : Server) : Prop := ∀ t ∈ s.tasks, t.Sound r codec

section Steps

variable {r : Resolver} {codec : Codec} {s : Server}

theorem allows_eq (r : Resolver) (s : State) (client : IpAddr) :
    r.allows s client = (r.acl.allows client,
      if r.acl.allows client then s
      else s.count fun st => { st with denied := st.denied + 1 }) := by
  rw [Resolver.allows]
  split
  · next h => rw [h]
  · next h => rw [Bool.not_eq_true] at h; rw [h]

theorem change_datagram (addr peer : SocketAddr) (payload : Bytes) :
    Change r codec s (.datagram addr peer payload) (s.recvUdp r addr peer payload) := by
  simp only [Server.recvUdp, allows_eq]
  cases hacl : r.acl.allows peer.ip with
  | false => exact .denied rfl hacl
  | true =>
    simp only [if_true, Bool.not_true, Bool.false_eq_true, if_false]
    cases hfree : Permits.tryAcquire s.free ⟨.udp, addr⟩ with
    | none => exact .full rfl hacl hfree
    | some free => exact .datagram hacl hfree

theorem change_connection (addr peer : SocketAddr) :
    Change r codec s (.connection addr peer) (s.acceptTcp r addr peer) := by
  simp only [Server.acceptTcp, allows_eq]
  cases hacl : r.acl.allows peer.ip with
  | false => exact .denied rfl hacl
  | true =>
    simp only [if_true, Bool.not_true, Bool.false_eq_true, if_false]
    cases hfree : Permits.tryAcquire s.free ⟨.tcp, addr⟩ with
    | none => exact .full rfl hacl hfree
    | some free => exact .connection hacl hfree

theorem change_frame (n : ℕ) (request : Bytes) :
    Change r codec s (.frame n request) (s.readFrame n request) := by
  rw [Server.readFrame]
  split
  · next htask => exact .frame htask
  · exact .quiet s.shared rfl rfl rfl

theorem change_handle (n : ℕ) (env : Env) :
    Change r codec s (.handle n env) (s.handle r codec n env) := by
  simp only [Server.handle]
  split
  · next l peer number request htask =>
    obtain ⟨o, out, hends, ho, hdone⟩ | ⟨st, hst⟩ :=
      decided_or_suspended r { env with codec } s.shared request peer
    · have hinner : r.handleInner { env with codec } s.shared request peer = .done out :=
        hdone env.meanwhile
      rw [hinner]
      exact .decided htask ho hends
    · obtain ⟨actions, elapsed, out, hinner⟩ := hst.waiting
      rw [hinner]
      exact .suspended htask hst
  · next hno =>
    refine .quiet s.shared rfl rfl ?_
    -- the equation of the last branch asks for `hno`
    simp only [lost]

theorem change_wake (hsound : Sound r codec s) (n : ℕ) :
    Change r codec s (.wake n) (s.wake r codec n) := by
  rw [Server.wake]
  split
  · next l peer number request env found htask =>
    obtain ⟨rfl, st, hst⟩ := hsound _ (List.mem_of_getElem? htask)
    obtain ⟨o, ho, hends⟩ := endsAs_of_suspended hst fun _ => s.shared
    exact .woken htask ho hends
  · exact .quiet s.shared rfl rfl rfl

theorem change_drop (n : ℕ) : Change r codec s (.drop n) (s.dropTask n) := by
  rw [Server.dropTask]
  split
  · next t htask => exact .dropped htask
  · next hnone =>
    refine .quiet s.shared rfl rfl ?_
    simp only [lost, hnone]

/-- Every event changes a sound server in one of the ways listed. -/
theorem change_step (hsound : Sound r codec s) (e : Event) :
    Change r codec s e (step r codec e s) := by
  cases e with
  | datagram addr peer payload => exact change_datagram addr peer payload
  | connection addr peer => exact change_connection addr peer
  | frame n request => exact change_frame n request
  | handle n env => exact change_handle n env
  | wake n => exact change_wake hsound n
  | drop n => exact change_drop n
  | sweep now => exact .quiet _ rfl rfl rfl
  | flushCache => exact .quiet _ rfl rfl rfl
  | swap blocklist => exact .quiet _ rfl rfl rfl

/-- The task sends the reply or its stub, or nothing. Then it is over, or reads on. -/
theorem reply_cases (r : Resolver) (codec : Codec) (s : Server) (n number : ℕ) (t : Task)
    (request : Bytes) (out : Served) :
    ∃ message : Option Bytes,
      (∀ m ∈ message, ∃ response, out.reply = some response ∧
        (m = response ∨ fitUdp codec request response r.cfg.upstreamUdpPayload = some m)) ∧
      (s.reply r codec n number t request out = (s.after number t out message).endTask n t ∨
        t.listener.transport = .tcp ∧ s.reply r codec n number t request out =
          { s.after number t out message with
            tasks := s.tasks.set n { t with stage := .reading } }) := by
  have hnothing : ({ s with shared := out.state, log := s.log ++ events out } : Server) =
      s.after number t out none := by
    rw [Server.after, Option.map_none, Option.toList_none, List.append_nil]
  obtain ⟨⟨transport, addr⟩, peer, stage⟩ := t
  cases transport with
  | udp =>
    simp only [Server.reply]
    split
    · next message hfitted =>
      obtain ⟨response, hreply, hfit⟩ := Option.bind_eq_some_iff.mp hfitted
      refine ⟨some message, fun m hm => ⟨response, hreply, .inr ?_⟩, .inl rfl⟩
      rwa [← Option.some.inj hm]
    · exact ⟨none, fun _ hm => by simp at hm, .inl (by rw [hnothing])⟩
  | tcp =>
    simp only [Server.reply]
    split
    · next response hreply =>
      split
      · exact ⟨none, fun _ hm => by simp at hm, .inl (by rw [hnothing])⟩
      · refine ⟨some response, fun m hm => ⟨response, hreply, .inl ?_⟩, .inr ⟨trivial, rfl⟩⟩
        rw [← Option.some.inj hm]
    · exact ⟨none, fun _ hm => by simp at hm, .inl (by rw [hnothing])⟩

theorem sound_append (hsound : Sound r codec s) {t : Task} {s' : Server}
    (htasks : s'.tasks = s.tasks ++ [t]) (ht : t.Sound r codec) : Sound r codec s' := by
  intro u hu
  rw [htasks, List.mem_append, List.mem_singleton] at hu
  obtain hu | rfl := hu
  · exact hsound u hu
  · exact ht

theorem sound_set (hsound : Sound r codec s) {n : ℕ} {t : Task} {s' : Server}
    (htasks : s'.tasks = s.tasks.set n t) (ht : t.Sound r codec) : Sound r codec s' := by
  intro u hu
  rw [htasks] at hu
  obtain hu | rfl := List.mem_or_eq_of_mem_set hu
  · exact hsound u hu
  · exact ht

theorem sound_eraseIdx (hsound : Sound r codec s) {n : ℕ} {s' : Server}
    (htasks : s'.tasks = s.tasks.eraseIdx n) : Sound r codec s' := by
  intro u hu
  rw [htasks] at hu
  exact hsound u (List.mem_of_mem_eraseIdx hu)

theorem sound_reply (hsound : Sound r codec s) (n number : ℕ) (t : Task) (request : Bytes)
    (out : Served) : Sound r codec (s.reply r codec n number t request out) := by
  obtain ⟨message, -, hend | ⟨htcp, hread⟩⟩ := reply_cases r codec s n number t request out
  · rw [hend]
    exact sound_eraseIdx hsound rfl
  · rw [hread]
    exact sound_set hsound rfl htcp

theorem sound_step (hsound : Sound r codec s) (e : Event) : Sound r codec (step r codec e s) := by
  have hchange := change_step hsound e
  generalize step r codec e s = s' at hchange
  cases hchange with
  | quiet shared hstats harrival hlost => exact hsound
  | denied harrival hacl => exact hsound
  | full harrival hacl hfree => exact hsound
  | datagram hacl hfree => exact sound_append hsound rfl trivial
  | connection hacl hfree => exact sound_append hsound rfl rfl
  | frame htask => exact sound_set hsound rfl trivial
  | suspended htask hst => exact sound_set hsound rfl ⟨rfl, _, hst⟩
  | decided htask ho hends => exact sound_reply hsound _ _ _ _ _
  | woken htask ho hends => exact sound_reply hsound _ _ _ _ _
  | dropped htask => exact sound_eraseIdx hsound rfl

theorem sound_start (r : Resolver) (codec : Codec) (blocklist : Blocklist) (cache : Cache) :
    Sound r codec (.start r blocklist cache) := fun t ht => by simp [Server.start] at ht

theorem sound_run (r : Resolver) (codec : Codec) (blocklist : Blocklist) (cache : Cache)
    (events : List Event) :
    Sound r codec (run (step r codec) events (.start r blocklist cache)) := by
  have hstep : ∀ e s, Sound r codec s → Sound r codec (step r codec e s) :=
    fun e _ hs => sound_step hs e
  exact run_invariant hstep events (sound_start r codec blocklist cache)

end Steps

end Netwatch.Dns
