import Netwatch.Dns.Server

/-!
# The counters and the log

`/api/status` shows the counters of the resolver, the other pages what was logged. The two are
kept apart, and a request touches them at different moments; here is how far they agree at any
moment of any run.

## Main definitions

- `Agree` — the counters as they follow from the log, from what is waiting and from what was lost

## Main results

- `agree_run` — in any run
-/

namespace Netwatch.Dns

open RustStd Hickory Interleaving

def Stage.isWaiting : Stage → Bool
  | .waiting _ _ _ _ => true
  | _ => false

/-- The requests that wait for an upstream. -/
def waiting (tasks : List Task) : ℕ := Permits.held (fun t => t.stage.isWaiting) tasks true

def Server.logged (s : Server) (status : QueryStatus) : ℕ :=
  s.log.countP fun e => e.status = status

structure Agree (s : Server) (missing : List Lost) : Prop where
  blocked : s.shared.stats.blocked = s.logged .blocked
  cached : s.shared.stats.cacheHits = s.logged .cached
  failed : s.shared.stats.upstreamErrors ≤ s.logged .servFail
  total : s.shared.stats.total =
    s.log.length + s.shared.stats.requestTimeouts + waiting s.tasks + missing.length

section Steps

variable {r : Resolver} {codec : Codec} {s s' : Server} {missing : List Lost}

theorem agree_congr (h : Agree s missing) (hlog : s'.log = s.log)
    (hwaiting : waiting s'.tasks = waiting s.tasks)
    (hblocked : s'.shared.stats.blocked = s.shared.stats.blocked)
    (hcached : s'.shared.stats.cacheHits = s.shared.stats.cacheHits)
    (hfailed : s'.shared.stats.upstreamErrors = s.shared.stats.upstreamErrors)
    (htimeouts : s'.shared.stats.requestTimeouts = s.shared.stats.requestTimeouts)
    (htotal : s'.shared.stats.total = s.shared.stats.total) : Agree s' missing := by
  refine ⟨?_, ?_, ?_, ?_⟩
  · rw [hblocked, Server.logged, hlog]
    exact h.blocked
  · rw [hcached, Server.logged, hlog]
    exact h.cached
  · rw [hfailed, Server.logged, hlog]
    exact h.failed
  · rw [htotal, hlog, htimeouts, hwaiting]
    exact h.total

theorem logged_append {es : List QueryEvent} (hlog : s'.log = s.log ++ es)
    (status : QueryStatus) :
    s'.logged status = s.logged status + es.countP fun e => e.status = status := by
  rw [Server.logged, hlog, List.countP_append, Server.logged]

/-- The counters that an outcome moves, and what it logs, in numbers. -/
theorem Outcome.Logs.counts {o : Outcome} {es : List QueryEvent} (h : o.Logs es) :
    (es.countP fun e => e.status = .blocked) = (if o = .blocked then 1 else 0) ∧
      (es.countP fun e => e.status = .cached) = (if o = .cached then 1 else 0) ∧
      (if o = .failed then 1 else 0) ≤ (es.countP fun e => e.status = .servFail) ∧
      es.length + (if o = .timedOut then 1 else 0) + (if o = .declined then 1 else 0) = 1 := by
  cases o with
  | declined | timedOut =>
    obtain rfl : es = [] := h
    simp
  | blocked | cached | failed =>
    obtain ⟨e, rfl, hstatus⟩ := h
    simp [hstatus]
  | relayed =>
    obtain ⟨e, rfl, hblocked, hcached⟩ := h
    simp [hblocked, hcached]

theorem Outcome.count_eq (o : Outcome) (st : Stats) :
    (o.count st).blocked = st.blocked + (if o = .blocked then 1 else 0) ∧
      (o.count st).cacheHits = st.cacheHits + (if o = .cached then 1 else 0) ∧
      (o.count st).upstreamErrors = st.upstreamErrors + (if o = .failed then 1 else 0) ∧
      (o.count st).requestTimeouts = st.requestTimeouts + (if o = .timedOut then 1 else 0) ∧
      (o.count st).total = st.total := by
  cases o <;> exact ⟨rfl, rfl, rfl, rfl, rfl⟩

/-- A request that has been counted and is not in the log comes to its end. -/
theorem agree_ended {request : Bytes} {before : Stats} {o : Outcome} {out : Served}
    (hends : EndsAs codec request before o out) (hshared : s'.shared = out.state)
    (hlog : s'.log = s.log ++ events out) (hblocked : before.blocked = s.logged .blocked)
    (hcached : before.cacheHits = s.logged .cached)
    (hfailed : before.upstreamErrors ≤ s.logged .servFail)
    (htotal : before.total =
      s.log.length + before.requestTimeouts + waiting s'.tasks + missing.length + 1) :
    Agree s' (missing ++ if o = .declined then [.declined] else []) := by
  have hlogged := logged_append hlog
  have hlength : s'.log.length = s.log.length + (events out).length := by
    rw [hlog, List.length_append]
  have hmissing : (if o = .declined then [Lost.declined] else []).length =
      if o = .declined then 1 else 0 := by split <;> rfl
  have hstats : s'.shared.stats = o.count before := by rw [hshared, hends.stats]
  obtain ⟨hbs, hcs, hfs, hsum⟩ := hends.logs.counts
  obtain ⟨hb, hc, hf, ht, htot⟩ := o.count_eq before
  refine ⟨?_, ?_, ?_, ?_⟩
  · rw [hstats, hlogged, hb, hbs, hblocked]
  · rw [hstats, hlogged, hc, hcs, hcached]
  · rw [hstats, hlogged, hf]
    exact Nat.add_le_add hfailed hfs
  · rw [hstats, htot, ht, htotal, hlength, List.length_append, hmissing]
    omega

theorem waiting_set {n : ℕ} {t : Task} (htask : s.tasks[n]? = some t) (u : Task) :
    waiting (s.tasks.set n u) + (if t.stage.isWaiting = true then 1 else 0) =
      waiting s.tasks + if u.stage.isWaiting = true then 1 else 0 :=
  Permits.held_set htask u true

theorem waiting_eraseIdx {n : ℕ} {t : Task} (htask : s.tasks[n]? = some t) :
    waiting (s.tasks.eraseIdx n) + (if t.stage.isWaiting = true then 1 else 0) =
      waiting s.tasks :=
  (Permits.held_eraseIdx htask true).symm

theorem waiting_concat {t : Task} (ht : t.stage.isWaiting = false) :
    waiting (s.tasks ++ [t]) = waiting s.tasks := by
  rw [waiting, Permits.held_concat, if_neg (by simp [ht]), Nat.add_zero, waiting]

/-- The task of the request is over, or reads on: it does not wait any longer. -/
theorem waiting_reply (r : Resolver) (codec : Codec) {n : ℕ} {t : Task}
    (htask : s.tasks[n]? = some t) (number : ℕ) (request : Bytes) (out : Served) :
    waiting (s.reply r codec n number t request out).tasks +
      (if t.stage.isWaiting = true then 1 else 0) = waiting s.tasks := by
  obtain ⟨message, -, hend | ⟨-, hread⟩⟩ := reply_cases r codec s n number t request out
  · rw [hend]
    exact waiting_eraseIdx htask
  · rw [hread]
    exact waiting_set htask { t with stage := .reading }

theorem log_reply (r : Resolver) (codec : Codec) (s : Server) (n number : ℕ) (t : Task)
    (request : Bytes) (out : Served) :
    (s.reply r codec n number t request out).shared = out.state ∧
      (s.reply r codec n number t request out).log = s.log ++ events out := by
  obtain ⟨message, -, hend | ⟨-, hread⟩⟩ := reply_cases r codec s n number t request out
  · rw [hend]
    exact ⟨rfl, rfl⟩
  · rw [hread]
    exact ⟨rfl, rfl⟩

theorem lost_of_arrival {e : Event} {a : Listener × SocketAddr} (h : arrival e = some a) :
    lost codec e s = none := by
  cases e with
  | datagram | connection => rfl
  | _ => cases h

/-- Something else than a request is counted. -/
theorem agree_shareCount (h : Agree s missing) {f : Stats → Stats}
    (hblocked : (f s.shared.stats).blocked = s.shared.stats.blocked)
    (hcached : (f s.shared.stats).cacheHits = s.shared.stats.cacheHits)
    (hfailed : (f s.shared.stats).upstreamErrors = s.shared.stats.upstreamErrors)
    (htimeouts : (f s.shared.stats).requestTimeouts = s.shared.stats.requestTimeouts)
    (htotal : (f s.shared.stats).total = s.shared.stats.total) :
    Agree (s.shareCount f) missing :=
  agree_congr h rfl rfl hblocked hcached hfailed htimeouts htotal

theorem agree_step (hsound : Sound r codec s) (h : Agree s missing) (e : Event) :
    Agree (step r codec e s) (missing ++ (lost codec e s).toList) := by
  have hchange := change_step hsound e
  generalize step r codec e s = s' at hchange
  cases hchange with
  | quiet shared hstats harrival hlost =>
    rw [hlost, Option.toList_none, List.append_nil]
    apply agree_congr h <;> simp only [hstats]
  | denied harrival hacl =>
    rw [lost_of_arrival harrival, Option.toList_none, List.append_nil]
    exact agree_shareCount h rfl rfl rfl rfl rfl
  | @full e l peer harrival hacl hfree =>
    rw [lost_of_arrival harrival, Option.toList_none, List.append_nil]
    obtain ⟨transport, addr⟩ := l
    cases transport <;> exact agree_shareCount h rfl rfl rfl rfl rfl
  | datagram hacl hfree =>
    rw [lost_of_arrival rfl, Option.toList_none, List.append_nil]
    exact agree_congr h rfl (waiting_concat rfl) rfl rfl rfl rfl rfl
  | connection hacl hfree =>
    rw [lost_of_arrival rfl, Option.toList_none, List.append_nil]
    exact agree_congr h rfl (waiting_concat rfl) rfl rfl rfl rfl rfl
  | @frame n l peer request htask =>
    have hwaiting := waiting_set htask ⟨l, peer, .ready s.asked.length request⟩
    have hlost : lost codec (.frame n request) s = none := rfl
    rw [hlost, Option.toList_none, List.append_nil]
    exact agree_congr h rfl hwaiting rfl rfl rfl rfl rfl
  | @suspended n l peer number request env st htask hst =>
    obtain ⟨hstats, hdeclined, -⟩ := hst
    have hlost : lost codec (.handle n env) s = none := by
      simp only [lost, htask]
      exact if_neg hdeclined
    have hwaiting : waiting (s.tasks.set n _) + 0 = waiting s.tasks + 1 := waiting_set htask
      ⟨l, peer, .waiting number request { env with codec } s.shared⟩
    rw [hlost, Option.toList_none, List.append_nil]
    refine ⟨?_, ?_, ?_, ?_⟩
    · exact (congrArg Stats.blocked hstats).trans h.blocked
    · exact (congrArg Stats.cacheHits hstats).trans h.cached
    · exact (congrArg Stats.upstreamErrors hstats).trans_le h.failed
    · dsimp only
      rw [hstats]
      simp only [Stats.begin, h.total]
      omega
  | @decided n l peer number request env o out htask ho hends =>
    have hwaiting : waiting _ + 0 = waiting s.tasks := waiting_reply r codec htask number
      request out
    obtain ⟨hshared, hlog⟩ :=
      log_reply r codec s n number ⟨l, peer, .ready number request⟩ request out
    have hlost : (lost codec (.handle n env) s).toList =
        if o = .declined then [.declined] else [] := by
      simp only [lost, htask, ho]
      split <;> rfl
    rw [hlost]
    refine agree_ended hends hshared hlog h.blocked h.cached h.failed ?_
    simp only [Stats.begin, h.total]
    omega
  | @woken n l peer number request env found o out htask ho hends =>
    have hwaiting : waiting _ + 1 = waiting s.tasks := waiting_reply r codec htask number
      request out
    obtain ⟨hshared, hlog⟩ :=
      log_reply r codec s n number ⟨l, peer, .waiting number request env found⟩ request out
    have hended := agree_ended hends hshared hlog h.blocked h.cached h.failed
      (show _ = _ + missing.length + 1 by rw [h.total]; omega)
    rwa [if_neg ho] at hended
  | @dropped n t htask =>
    obtain ⟨l, peer, stage⟩ := t
    have hwaiting := waiting_eraseIdx htask
    refine ⟨h.blocked, h.cached, h.failed, h.total.trans ?_⟩
    show _ = s.log.length + s.shared.stats.requestTimeouts + waiting (s.tasks.eraseIdx n) + _
    rw [← hwaiting, List.length_append]
    cases stage with
    | reading | ready =>
      simp only [lost, htask]
      rfl
    | waiting =>
      simp only [lost, htask]
      show _ + (waiting _ + 1) + _ = _ + waiting _ + (_ + 1)
      omega

end Steps

/-- Whatever the order of events: the counters of blocked and cached requests are those in the
log, and a request that was counted is in the log, timed out, still waiting, or lost in one of
the two ways there are. -/
theorem agree_run (r : Resolver) (codec : Codec) (blocklist : Blocklist) (cache : Cache)
    (events : List Event) :
    Agree (run (step r codec) events (.start r blocklist cache))
      (order (step r codec) (lost codec) events (.start r blocklist cache)) := by
  have hstep : ∀ e s missing, Sound r codec s ∧ Agree s missing →
      Sound r codec (step r codec e s) ∧
        Agree (step r codec e s) (missing ++ (lost codec e s).toList) :=
    fun e s missing hs => ⟨sound_step hs.1 e, agree_step hs.1 hs.2 e⟩
  have hstart : Agree (.start r blocklist cache) [] := ⟨rfl, rfl, le_rfl, rfl⟩
  exact (run_collect hstep events ⟨sound_start r codec blocklist cache, hstart⟩).2

end Netwatch.Dns
