import Netwatch.Dns.Server

/-!
# Who is served

The servers turn away whoever may not query at all and whoever comes while all permits of the
socket are taken. The code knows about the second from its semaphore; what it should know is how
many tasks are running.

## Main definitions

- `verdict` — what should become of an arrival
- `Accounted` — no permit is lost, and every arrival is counted under its verdict
- `Serves` — an arrival that is admitted gets a task, and no other one does

## Main results

- `admission_run` — in any run
-/

namespace Netwatch.Dns

open RustStd Hickory Interleaving

inductive Verdict
  /-- The source is outside `dns.allow_from`. -/
  | denied
  /-- As many tasks as are allowed are running for the socket. -/
  | full (t : Transport)
  | admitted (t : Transport)
  deriving DecidableEq

/-- The tasks that run for a socket. -/
def Server.running (s : Server) (l : Listener) : ℕ := Permits.held Task.listener s.tasks l

def verdict (r : Resolver) (e : Event) (s : Server) : Option Verdict :=
  (arrival e).map fun a =>
    if r.acl.allows a.2.ip = false then .denied
    else if limit r.cfg a.1 ≤ s.running a.1 then .full a.1.transport
    else .admitted a.1.transport

def Server.PermitsBalanced (r : Resolver) (s : Server) : Prop :=
  Permits.Balanced (limit r.cfg) s.free Task.listener s.tasks

/-- Where arrivals with a verdict are counted. -/
def Verdict.counter (v : Verdict) (s : Server) : ℕ :=
  match v with
  | .denied => s.shared.stats.denied
  | .full .udp => s.shared.stats.udpOverloadDrops
  | .full .tcp => s.shared.stats.tcpRejections
  | .admitted .udp => s.asked.countP fun a => a.listener.transport = .udp
  | .admitted .tcp => s.opened.length

structure Accounted (r : Resolver) (s : Server) (verdicts : List Verdict) : Prop where
  permits : ∀ l, s.free l + s.running l = limit r.cfg l
  denied : s.shared.stats.denied = verdicts.count .denied
  overload : s.shared.stats.udpOverloadDrops = verdicts.count (.full .udp)
  rejected : s.shared.stats.tcpRejections = verdicts.count (.full .tcp)
  asked : (s.asked.countP fun a => a.listener.transport = .udp) = verdicts.count (.admitted .udp)
  opened : s.opened.length = verdicts.count (.admitted .tcp)

def Serves (r : Resolver) (codec : Codec) (e : Event) (s : Server) : Prop :=
  ∀ l peer, arrival e = some (l, peer) →
    if verdict r e s = some (.admitted l.transport) then
      ∃ stage, (step r codec e s).tasks = s.tasks ++ [⟨l, peer, stage⟩]
    else (step r codec e s).tasks = s.tasks

section Steps

variable {r : Resolver} {codec : Codec} {s : Server}

theorem balanced_reply (hs : s.PermitsBalanced r) {n : ℕ} {t : Task}
    (htask : s.tasks[n]? = some t) (number : ℕ) (request : Bytes) (out : Served) :
    (s.reply r codec n number t request out).PermitsBalanced r := by
  obtain ⟨message, -, hend | ⟨-, hread⟩⟩ := reply_cases r codec s n number t request out
  · rw [hend]
    exact hs.release htask
  · rw [hread]
    exact hs.set htask rfl

theorem balanced_step (hsound : Sound r codec s) (hs : s.PermitsBalanced r) (e : Event) :
    (step r codec e s).PermitsBalanced r := by
  have hchange := change_step hsound e
  generalize step r codec e s = s' at hchange
  cases hchange with
  | quiet shared hstats harrival hlost => exact hs
  | denied harrival hacl => exact hs
  | full harrival hacl hfree => exact hs
  | datagram hacl hfree => exact hs.acquire hfree
  | connection hacl hfree => exact hs.acquire hfree
  | frame htask => exact hs.set htask rfl
  | suspended htask hst => exact hs.set htask rfl
  | decided htask ho hends => exact balanced_reply hs htask _ _ _
  | woken htask ho hends => exact balanced_reply hs htask _ _ _
  | dropped htask => exact hs.release htask

/-- The semaphore knows how many tasks are running. -/
theorem tryAcquire_eq_none_iff (hs : s.PermitsBalanced r) (l : Listener) :
    Permits.tryAcquire s.free l = none ↔ limit r.cfg l ≤ s.running l :=
  (hs.exhausted_iff l).trans ⟨fun h => h.ge, fun h => Nat.le_antisymm (hs.held_le l) h⟩

theorem verdict_of_denied {e : Event} {l : Listener} {peer : SocketAddr}
    (harrival : arrival e = some (l, peer)) (hacl : r.acl.allows peer.ip = false) :
    verdict r e s = some .denied := by
  rw [verdict, harrival, Option.map_some, if_pos hacl]

theorem verdict_of_full {e : Event} {l : Listener} {peer : SocketAddr}
    (hs : s.PermitsBalanced r) (harrival : arrival e = some (l, peer))
    (hacl : r.acl.allows peer.ip = true) (hfree : Permits.tryAcquire s.free l = none) :
    verdict r e s = some (.full l.transport) := by
  rw [verdict, harrival, Option.map_some, if_neg (by simp [hacl]),
    if_pos ((tryAcquire_eq_none_iff hs l).mp hfree)]

theorem verdict_of_admitted {e : Event} {l : Listener} {peer : SocketAddr}
    {free : Listener → ℕ} (hs : s.PermitsBalanced r) (harrival : arrival e = some (l, peer))
    (hacl : r.acl.allows peer.ip = true) (hfree : Permits.tryAcquire s.free l = some free) :
    verdict r e s = some (.admitted l.transport) := by
  have hroom : ¬ limit r.cfg l ≤ s.running l := by
    rw [← tryAcquire_eq_none_iff hs l, hfree]
    exact Option.some_ne_none _
  rw [verdict, harrival, Option.map_some, if_neg (by simp [hacl]), if_neg hroom]

/-- What becomes of a request is counted elsewhere. -/
theorem counter_congr {s' : Server} (hasked : s'.asked = s.asked) (hopened : s'.opened = s.opened)
    (hdenied : s'.shared.stats.denied = s.shared.stats.denied)
    (hoverload : s'.shared.stats.udpOverloadDrops = s.shared.stats.udpOverloadDrops)
    (hrejected : s'.shared.stats.tcpRejections = s.shared.stats.tcpRejections) (v : Verdict) :
    v.counter s' = v.counter s := by
  rcases v with - | (- | -) | (- | -)
  · exact hdenied
  · exact hoverload
  · exact hrejected
  · simp only [Verdict.counter, hasked]
  · simp only [Verdict.counter, hopened]

theorem counter_reply {request : Bytes} {before : Stats} {o : Outcome} {out : Served}
    (hends : EndsAs codec request before o out)
    (hbefore : before = s.shared.stats ∨ before = s.shared.stats.begin) (n number : ℕ) (t : Task)
    (v : Verdict) : v.counter (s.reply r codec n number t request out) = v.counter s := by
  have hstats : out.state.stats.denied = s.shared.stats.denied ∧
      out.state.stats.udpOverloadDrops = s.shared.stats.udpOverloadDrops ∧
      out.state.stats.tcpRejections = s.shared.stats.tcpRejections := by
    rw [hends.stats]
    obtain rfl | rfl := hbefore <;> cases o <;> exact ⟨rfl, rfl, rfl⟩
  obtain ⟨message, -, hend | ⟨-, hread⟩⟩ := reply_cases r codec s n number t request out
  · rw [hend]
    refine counter_congr ?_ ?_ hstats.1 hstats.2.1 hstats.2.2 v <;> rfl
  · rw [hread]
    refine counter_congr ?_ ?_ hstats.1 hstats.2.1 hstats.2.2 v <;> rfl

theorem counter_step (hsound : Sound r codec s) (hs : s.PermitsBalanced r) (v : Verdict)
    (e : Event) :
    v.counter (step r codec e s) = v.counter s + if verdict r e s = some v then 1 else 0 := by
  -- what is no arrival gets no verdict
  have hquiet : arrival e = none → (if verdict r e s = some v then 1 else 0) = 0 := by
    intro harrival
    rw [verdict, harrival]
    rfl
  have hchange := change_step hsound e
  generalize step r codec e s = s' at hchange
  cases hchange with
  | quiet shared hstats harrival hlost =>
    rw [hquiet harrival]
    refine counter_congr ?_ ?_ ?_ ?_ ?_ v
    · rfl
    · rfl
    all_goals simp only [hstats]
  | denied harrival hacl =>
    rw [verdict_of_denied harrival hacl]
    rcases v with - | (- | -) | (- | -) <;> rfl
  | @full _ l _ harrival hacl hfree =>
    rw [verdict_of_full hs harrival hacl hfree]
    -- each transport counts the arrivals that it has no room for
    obtain ⟨transport, addr⟩ := l
    cases transport <;> rcases v with - | (- | -) | (- | -) <;> rfl
  | datagram hacl hfree =>
    rw [verdict_of_admitted hs rfl hacl hfree]
    -- an admitted datagram is among what has been asked
    rcases v with - | (- | -) | (- | -)
    · rfl
    · rfl
    · rfl
    · simp [Verdict.counter]
    · rfl
  | connection hacl hfree =>
    rw [verdict_of_admitted hs rfl hacl hfree]
    -- an admitted connection gets a session
    rcases v with - | (- | -) | (- | -)
    · rfl
    · rfl
    · rfl
    · rfl
    · simp [Verdict.counter]
  | @frame n l peer request htask =>
    -- a frame is read over TCP; of what has been asked only the datagrams count
    have htcp : l.transport = .tcp := hsound _ (List.mem_of_getElem? htask)
    rw [hquiet rfl]
    rcases v with - | (- | -) | (- | -)
    · rfl
    · rfl
    · rfl
    · simp only [Verdict.counter, List.countP_append, List.countP_singleton]
      rw [if_neg (by simp [htcp])]
    · rfl
  | suspended htask hst =>
    rw [hquiet rfl]
    refine counter_congr ?_ ?_ ?_ ?_ ?_ v
    · rfl
    · rfl
    all_goals simp only [hst.1]; rfl
  | decided htask ho hends =>
    rw [hquiet rfl]
    exact counter_reply hends (.inr rfl) _ _ _ v
  | woken htask ho hends =>
    rw [hquiet rfl]
    exact counter_reply hends (.inl rfl) _ _ _ v
  | dropped htask =>
    rw [hquiet rfl]
    rcases v with - | (- | -) | (- | -) <;> rfl

theorem serves_step (hsound : Sound r codec s) (hs : s.PermitsBalanced r) (e : Event) :
    Serves r codec e s := by
  intro l peer harrival
  have hchange := change_step hsound e
  generalize step r codec e s = s' at hchange
  have hl : ∀ l' peer', arrival e = some (l', peer') → l' = l ∧ peer' = peer := by
    intro l' peer' harrival'
    exact Prod.mk.inj (Option.some.inj (harrival'.symm.trans harrival))
  cases hchange with
  | denied harrival' hacl =>
    rw [verdict_of_denied harrival' hacl, if_neg (by simp)]
    rfl
  | full harrival' hacl hfree =>
    rw [verdict_of_full hs harrival' hacl hfree, if_neg (by simp)]
    rfl
  | datagram hacl hfree =>
    obtain ⟨rfl, rfl⟩ := hl _ _ rfl
    rw [if_pos (verdict_of_admitted hs rfl hacl hfree)]
    exact ⟨_, rfl⟩
  | connection hacl hfree =>
    obtain ⟨rfl, rfl⟩ := hl _ _ rfl
    rw [if_pos (verdict_of_admitted hs rfl hacl hfree)]
    exact ⟨_, rfl⟩
  | quiet shared hstats hnone hlost =>
    rw [hnone] at harrival
    cases harrival
  | frame htask => cases harrival
  | suspended htask hst => cases harrival
  | decided htask ho hends => cases harrival
  | woken htask ho hends => cases harrival
  | dropped htask => cases harrival

end Steps

/-- Whatever the order of events: the free permits and the running tasks of a socket add up to
its limit, and each arrival is counted once, under what should become of it, and served just if
it should be. -/
theorem admission_run (r : Resolver) (codec : Codec) (blocklist : Blocklist) (cache : Cache)
    (events : List Event) :
    Accounted r (run (step r codec) events (.start r blocklist cache))
      (order (step r codec) (verdict r) events (.start r blocklist cache)) ∧
    Along (step r codec) (Serves r codec) events (.start r blocklist cache) := by
  have hstep : ∀ e s, Sound r codec s ∧ s.PermitsBalanced r →
      Sound r codec (step r codec e s) ∧ (step r codec e s).PermitsBalanced r :=
    fun e s hs => ⟨sound_step hs.1 e, balanced_step hs.1 hs.2 e⟩
  have hstart : Sound r codec (.start r blocklist cache) ∧
      (Server.start r blocklist cache).PermitsBalanced r :=
    ⟨sound_start r codec blocklist cache, Permits.balanced_nil _ _⟩
  have hcounter : ∀ v : Verdict,
      v.counter (run (step r codec) events (.start r blocklist cache)) =
        v.counter (.start r blocklist cache) +
          (order (step r codec) (verdict r) events (.start r blocklist cache)).count v :=
    fun v => run_counter hstep (fun e s hs => counter_step hs.1 hs.2 v e) events hstart
  constructor
  · refine ⟨(run_invariant hstep events hstart).2, ?_, ?_, ?_, ?_, ?_⟩
    · exact (hcounter .denied).trans (Nat.zero_add _)
    · exact (hcounter (.full .udp)).trans (Nat.zero_add _)
    · exact (hcounter (.full .tcp)).trans (Nat.zero_add _)
    · exact (hcounter (.admitted .udp)).trans (Nat.zero_add _)
    · exact (hcounter (.admitted .tcp)).trans (Nat.zero_add _)
  · refine along_iff_forall_split.mpr fun pre e post _ => ?_
    have hpre := run_invariant hstep pre hstart
    exact serves_step hpre.1 hpre.2 e

end Netwatch.Dns
