import Netwatch.Dns.Logged

/-!
# Failover within the budget

Each server that stays silent costs `upstream_timeout_ms`, and all of them together share
`request_timeout_ms`. `Config::validate` does not compare the two, so that a configuration can
pass its own check although its last servers are never waited for.

## Main definitions

- `Failover` — some servers time out and the next one answers
- `Covers` — the budget has room for a timeout of every server

## Main results

- `forward_of_failover` — the answer comes after all the timeouts before it
- `handle_failover_iff` — the client gets it exactly if it comes within the budget
- `handle_failover` — which it does where the budget covers all the timeouts
-/

namespace Netwatch.Dns

open RustStd Hickory

/-- What is heard of a server before it is given up. -/
def heard (codec : Codec) (cfg : DnsConfig) (request : Bytes) (msg : Message) (u : Upstream) :
    Exchange :=
  let limit := cfg.upstreamUdpPayload
  let wire := clampUpstreamPayload codec request msg limit
  withTimeout cfg.upstreamTimeoutMs.toNat (attempt codec wire limit u)

/-- The first `k` servers time out, and the next one has an acceptable answer after `t`
milliseconds. -/
structure Failover (codec : Codec) (cfg : DnsConfig) (net : ℕ → Peer) (request : Bytes)
    (msg : Message) (k t : ℕ) (raw : Bytes) : Prop where
  silent : ∀ u ∈ (upstreamsOf cfg net).take k, heard codec cfg request msg u = none
  answered : ∃ u, (upstreamsOf cfg net)[k]? = some u ∧
    heard codec cfg request msg u = some (t, .ok raw)
  accepted : accepts codec msg raw = true

/-- `request_timeout_ms` as the default is chosen. -/
def Covers (cfg : DnsConfig) : Prop :=
  cfg.upstreams.length * cfg.upstreamTimeoutMs.toNat ≤ cfg.requestTimeoutMs.toNat

section Loop

variable {codec : Codec} {wire : Bytes} {parsed : Message} {limit : UInt16} {timeout : ℕ}

/-- Servers that time out only take their time. -/
theorem forwardTo_of_silent {before : List Upstream}
    (h : ∀ u ∈ before, withTimeout timeout (attempt codec wire limit u) = none)
    (rest : List Upstream) (lastErr : ForwardError) :
    ∃ e, forwardTo codec wire parsed limit timeout (before ++ rest) lastErr =
      (before.length * timeout + (forwardTo codec wire parsed limit timeout rest e).1,
        (forwardTo codec wire parsed limit timeout rest e).2) := by
  induction before generalizing lastErr with
  | nil => exact ⟨lastErr, by simp⟩
  | cons u before ih =>
    obtain ⟨e, he⟩ := ih (fun v hv => h v (List.mem_cons_of_mem u hv)) (.timedOut u.addr)
    refine ⟨e, ?_⟩
    rw [List.cons_append, forwardTo, h u List.mem_cons_self]
    dsimp only
    rw [he, List.length_cons]
    refine Prod.ext ?_ rfl
    dsimp only
    rw [Nat.succ_mul]
    omega

theorem forwardTo_of_answer {u : Upstream} {t : ℕ} {raw : Bytes}
    (h : withTimeout timeout (attempt codec wire limit u) = some (t, .ok raw))
    (haccepts : accepts codec parsed raw = true) (rest : List Upstream) (lastErr : ForwardError) :
    forwardTo codec wire parsed limit timeout (u :: rest) lastErr = (t, .ok raw) := by
  rw [accepts, Option.any_eq_true] at haccepts
  obtain ⟨m, hm, hanswers⟩ := haccepts
  rw [forwardTo, h]
  dsimp only
  rw [hm]
  exact if_pos hanswers

end Loop

section Failover

variable {codec : Codec} {cfg : DnsConfig} {net : ℕ → Peer} {request : Bytes} {msg : Message}
  {k t : ℕ} {raw : Bytes}

theorem Failover.lt (h : Failover codec cfg net request msg k t raw) :
    k < cfg.upstreams.length := by
  obtain ⟨u, hu, -⟩ := h.answered
  obtain ⟨hk, -⟩ := List.getElem?_eq_some_iff.mp hu
  rwa [upstreamsOf, List.length_map, List.length_zipIdx] at hk

theorem Failover.time_le (h : Failover codec cfg net request msg k t raw) :
    t ≤ cfg.upstreamTimeoutMs.toNat := by
  obtain ⟨u, -, hheard⟩ := h.answered
  exact of_decide_eq_true (Option.filter_eq_some_iff.mp hheard).2

theorem forward_of_failover (h : Failover codec cfg net request msg k t raw) :
    forward codec cfg net request msg = (k * cfg.upstreamTimeoutMs.toNat + t, .ok raw) := by
  obtain ⟨u, hu, hheard⟩ := h.answered
  obtain ⟨hk, hget⟩ := List.getElem?_eq_some_iff.mp hu
  have hsplit : upstreamsOf cfg net =
      (upstreamsOf cfg net).take k ++ u :: (upstreamsOf cfg net).drop (k + 1) := by
    rw [← hget, ← List.drop_eq_getElem_cons hk, List.take_append_drop]
  have hlength : ((upstreamsOf cfg net).take k).length = k := List.length_take_of_le hk.le
  rw [forward, hsplit]
  obtain ⟨e, he⟩ := forwardTo_of_silent h.silent (u :: (upstreamsOf cfg net).drop (k + 1))
    .noUpstreams
  rw [he, forwardTo_of_answer hheard h.accepted, hlength]

/-- The budget that covers a timeout of every server covers every failover. -/
theorem Failover.within_of_covers (h : Failover codec cfg net request msg k t raw)
    (hcovers : Covers cfg) : k * cfg.upstreamTimeoutMs.toNat + t ≤ cfg.requestTimeoutMs.toNat :=
  calc k * cfg.upstreamTimeoutMs.toNat + t
      ≤ k * cfg.upstreamTimeoutMs.toNat + cfg.upstreamTimeoutMs.toNat :=
        Nat.add_le_add_left h.time_le _
    _ = (k + 1) * cfg.upstreamTimeoutMs.toNat := (Nat.succ_mul _ _).symm
    _ ≤ cfg.upstreams.length * cfg.upstreamTimeoutMs.toNat := Nat.mul_le_mul_right _ h.lt
    _ ≤ cfg.requestTimeoutMs.toNat := hcovers

end Failover

section Requests

variable {r : Resolver} {env : Env} {s : State} {request : Bytes} {msg : Message} {query : Query}

/-- What the upstreams answer is relayed as it came, if the budget lasts until then. -/
theorem reply_of_cold (hmsg : env.codec.fromVec request = some msg)
    (hstandard : msg.metadata.messageType = .query ∧ msg.metadata.opCode = .query)
    (hquery : msg.queries.head? = some query) (hmiss : ¬ Intercepted r env s query)
    (hcold : ¬ CacheHit r env s msg query) {elapsed : ℕ} {raw : Bytes}
    (hforward : forward env.codec r.cfg env.net request msg = (elapsed, .ok raw))
    (client : SocketAddr) :
    (r.handle env s request client).reply =
      if elapsed ≤ r.cfg.requestTimeoutMs.toNat then some raw
      else encode env.codec (errorResponse msg .servFail r.cfg.upstreamUdpPayload) := by
  have hnone : (r.lookupCache env (s.count fun st => { st with total := st.total + 1 })
      (Key.fromRequest msg (questionName env.codec query))).1 = none :=
    Option.not_isSome_iff_eq_none.mp fun hhit => hcold ((cacheHit_count _).mp hhit)
  have hrelay : ∀ later key now name qtype ip,
      (r.relay env later key now elapsed name qtype ip raw).reply = some raw := by
    intro later key now name qtype ip
    rw [Resolver.relay]
    cases env.codec.fromVec raw <;> rfl
  rw [Resolver.handle, handleInner_of_not_intercepted hmsg hstandard hquery client hmiss]
  simp only [Resolver.resolve, hnone, Resolver.ask, hforward]
  split
  · exact hrelay _ _ _ _ _ _
  · rw [Resolver.timedOut, hmsg]
    rfl

/-- After a failover the client gets the answer exactly if it comes within the budget, or is
what the client gets anyway. -/
theorem handle_failover_iff (hmsg : env.codec.fromVec request = some msg)
    (hstandard : msg.metadata.messageType = .query ∧ msg.metadata.opCode = .query)
    (hquery : msg.queries.head? = some query) (hmiss : ¬ Intercepted r env s query)
    (hcold : ¬ CacheHit r env s msg query) {k t : ℕ} {raw : Bytes}
    (h : Failover env.codec r.cfg env.net request msg k t raw) (client : SocketAddr) :
    (r.handle env s request client).reply = some raw ↔
      k * r.cfg.upstreamTimeoutMs.toNat + t ≤ r.cfg.requestTimeoutMs.toNat ∨
        encode env.codec (errorResponse msg .servFail r.cfg.upstreamUdpPayload) = some raw := by
  rw [reply_of_cold hmsg hstandard hquery hmiss hcold (forward_of_failover h) client]
  split
  · next htime => exact iff_of_true rfl (.inl htime)
  · next htime => exact ⟨.inr, fun hreply => hreply.resolve_left htime⟩

theorem handle_failover (hmsg : env.codec.fromVec request = some msg)
    (hstandard : msg.metadata.messageType = .query ∧ msg.metadata.opCode = .query)
    (hquery : msg.queries.head? = some query) (hmiss : ¬ Intercepted r env s query)
    (hcold : ¬ CacheHit r env s msg query) {k t : ℕ} {raw : Bytes}
    (h : Failover env.codec r.cfg env.net request msg k t raw) (hcovers : Covers r.cfg)
    (client : SocketAddr) : (r.handle env s request client).reply = some raw := by
  rw [reply_of_cold hmsg hstandard hquery hmiss hcold (forward_of_failover h) client]
  exact if_pos (h.within_of_covers hcovers)

example : Covers {} := by
  rw [Covers]
  decide

end Requests

/-! ### The last server answers -/

/-- `example.com` exists and has no address. -/
def nodata : Message := baseResponse exampleQuery 1232

def nodataBytes : Bytes := (exampleQueryBytes.set 2 0x81).set 3 0x80

/-- Servers that stay silent, up to the one that answers after 5 ms. -/
def failoverEnv (k : ℕ) : Env :=
  { silentEnv ((nodataBytes, nodata) :: servFailTable) with
    net := fun i => ⟨if i < k then [] else [(5, .ok nodataBytes)], none⟩ }

theorem not_intercepted_failover (cfg : Config) (k : ℕ) :
    ¬ Intercepted (.new cfg none) (failoverEnv k) denyAds ⟨exampleName, .a, .internet⟩ := by
  rintro (⟨-, hcanary⟩ | ⟨-, hblocked⟩)
  · have hname : "example.com".toList = firefoxCanary := hcanary
    exact absurd hname (by decide)
  · have hfree : (denyAds.blocklist.lookup "example.com".toList).isSome = false := by decide
    exact Bool.false_ne_true (hfree.symm.trans hblocked)

theorem handle_failover_iff_second :
    (sampleResolver.handle (failoverEnv 1) denyAds exampleQueryBytes anyClient).reply =
      some nodataBytes := by
  have hfailover : Failover (failoverEnv 1).codec sampleResolver.cfg (failoverEnv 1).net
      exampleQueryBytes exampleQuery 1 5 nodataBytes :=
    ⟨by decide, ⟨_, rfl, by decide⟩, by decide⟩
  have hcold : ¬ CacheHit sampleResolver (failoverEnv 1) denyAds exampleQuery
      ⟨exampleName, .a, .internet⟩ := by
    rw [CacheHit]
    decide
  exact (handle_failover_iff (by decide) (by decide) rfl (not_intercepted_failover {} 1) hcold
    hfailover anyClient).mpr (.inl (by decide))

/-- The default settings with three more servers. -/
def fiveUpstreams : Config where
  dns :=
    { upstreams :=
        [⟨.v4 (Ipv4Addr.ofOctets 1 1 1 1), 53⟩, ⟨.v4 (Ipv4Addr.ofOctets 1 0 0 1), 53⟩,
          ⟨.v4 (Ipv4Addr.ofOctets 9 9 9 9), 53⟩, ⟨.v4 (Ipv4Addr.ofOctets 8 8 8 8), 53⟩,
          ⟨.v4 (Ipv4Addr.ofOctets 8 8 4 4), 53⟩] }

/-- The fifth server is not waited for. -/
theorem failover_cut_short :
    fiveUpstreams.validate = .ok () ∧
      ¬ Intercepted (.new fiveUpstreams none) (failoverEnv 4) denyAds
        ⟨exampleName, .a, .internet⟩ ∧
      ¬ CacheHit (.new fiveUpstreams none) (failoverEnv 4) denyAds exampleQuery
        ⟨exampleName, .a, .internet⟩ ∧
      Failover (failoverEnv 4).codec fiveUpstreams.dns (failoverEnv 4).net exampleQueryBytes
        exampleQuery 4 5 nodataBytes ∧
      ((Resolver.new fiveUpstreams none).handle (failoverEnv 4) denyAds exampleQueryBytes
        anyClient).reply = some servFailBytes ∧
      servFailBytes ≠ nodataBytes := by
  refine ⟨by decide, not_intercepted_failover fiveUpstreams 4, ?_,
    ⟨by decide, ⟨_, rfl, by decide⟩, by decide⟩, rfl, by decide⟩
  rw [CacheHit]
  decide

end Netwatch.Dns
