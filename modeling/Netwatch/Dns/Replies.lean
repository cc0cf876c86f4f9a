import Netwatch.Dns.Server

/-!
# Replies reach who asked

Many requests are under way at a time, and their replies are sent in any order. No reply goes
astray: each is for a request that was read from its recipient on the same socket, under that
request's transaction ID, and no request is replied to twice.

## Main definitions

- `Tracked` — the requests under way and the replies sent belong to requests that were read
- `Rightful` — what follows for the replies

## Main results

- `rightful_run` — in any run
-/

namespace Netwatch.Dns

open RustStd Hickory Interleaving

/-- Encoding keeps the transaction ID. -/
def KeepsId (codec : Codec) : Prop :=
  ∀ m bytes, codec.toVec m = some bytes →
    ∃ m', codec.fromVec bytes = some m' ∧ m'.metadata.id = m.metadata.id

def SameId (codec : Codec) (request message : Bytes) : Prop :=
  ∃ req m, codec.fromVec request = some req ∧ codec.fromVec message = some m ∧
    m.metadata.id = req.metadata.id

def Stage.number : Stage → Option ℕ
  | .reading => none
  | .ready number _ => some number
  | .waiting number _ _ _ => some number

def Stage.request : Stage → Bytes
  | .reading => []
  | .ready _ request => request
  | .waiting _ request _ _ => request

/-- The requests that are under way. -/
def numbers (tasks : List Task) : List ℕ := tasks.filterMap fun t => t.stage.number

/-- Each number is one request, which is under way or has been replied to. -/
structure Tracked (r : Resolver) (codec : Codec) (s : Server) : Prop where
  once : (numbers s.tasks ++ s.sent.map Sent.number).Nodup
  tasks : ∀ t ∈ s.tasks, r.acl.allows t.peer.ip = true ∧
    ∀ number ∈ t.stage.number, s.asked[number]? = some ⟨t.listener, t.peer, t.stage.request⟩
  sent : ∀ x ∈ s.sent, r.acl.allows x.peer.ip = true ∧
    ∃ a, s.asked[x.number]? = some a ∧ a.listener = x.listener ∧ a.peer = x.peer ∧
      SameId codec a.request x.message

structure Rightful (r : Resolver) (codec : Codec) (s : Server) : Prop where
  once : (s.sent.map Sent.number).Nodup
  asked : ∀ x ∈ s.sent, ∃ a, s.asked[x.number]? = some a ∧ a.listener = x.listener ∧
    a.peer = x.peer ∧ SameId codec a.request x.message
  allowed : ∀ x ∈ s.sent, r.acl.allows x.peer.ip = true

theorem Tracked.rightful {r : Resolver} {codec : Codec} {s : Server} (h : Tracked r codec s) :
    Rightful r codec s :=
  ⟨(List.nodup_append.mp h.once).2.1, fun x hx => (h.sent x hx).2, fun x hx => (h.sent x hx).1⟩

section Ids

variable {codec : Codec} {request : Bytes}

theorem sameId_of_replies (hcodec : KeepsId codec) {reply : Bytes}
    (h : Replies codec request reply) : SameId codec request reply := by
  obtain ⟨req, m, hreq, hid, hencoded | hdecoded⟩ := h
  · obtain ⟨m', hm', hid'⟩ := hcodec m reply hencoded
    exact ⟨req, m', hreq, hm', hid'.trans hid⟩
  · exact ⟨req, m, hreq, hdecoded, hid⟩

/-- A stub has the transaction ID of the answer it stands for. -/
theorem sameId_of_fitUdp (hcodec : KeepsId codec) {response out : Bytes} {ourMaxPayload : UInt16}
    (h : SameId codec request response)
    (hfit : fitUdp codec request response ourMaxPayload = some out) :
    SameId codec request out := by
  obtain ⟨req, resp, hreq, hresp, hid⟩ := h
  by_cases hsmall : response.length ≤ payloadLimit req ourMaxPayload
  · obtain rfl : response = out :=
      Option.some.inj ((fitUdp_of_small hreq hsmall).symm.trans hfit)
    exact ⟨req, resp, hreq, hresp, hid⟩
  · rw [fitUdp_of_large hreq (not_le.mp hsmall), hresp, Option.bind_some] at hfit
    obtain ⟨m', hm', hid'⟩ := hcodec _ out hfit
    exact ⟨req, m', hreq, hm', hid'.trans hid⟩

end Ids

section Numbers

variable {tasks : List Task} {n : ℕ} {t : Task}

theorem numbers_perm_cons (htask : tasks[n]? = some t) :
    (numbers tasks).Perm (t.stage.number.toList ++ numbers (tasks.eraseIdx n)) := by
  obtain ⟨hn, rfl⟩ := List.getElem?_eq_some_iff.mp htask
  refine ((List.getElem_cons_eraseIdx_perm hn).filterMap _).symm.trans ?_
  rw [List.filterMap_cons]
  cases tasks[n].stage.number <;> exact .refl _

theorem numbers_set_perm (htask : tasks[n]? = some t) (u : Task) :
    (numbers (tasks.set n u)).Perm (u.stage.number.toList ++ numbers (tasks.eraseIdx n)) := by
  obtain ⟨hn, rfl⟩ := List.getElem?_eq_some_iff.mp htask
  refine ((List.set_perm_cons_eraseIdx hn u).filterMap _).trans ?_
  rw [List.filterMap_cons]
  cases u.stage.number <;> exact .refl _

theorem numbers_concat (tasks : List Task) (t : Task) :
    numbers (tasks ++ [t]) = numbers tasks ++ t.stage.number.toList := by
  rw [numbers, List.filterMap_append, List.filterMap_cons, List.filterMap_nil]
  cases t.stage.number <;> rfl

end Numbers

section Steps

variable {r : Resolver} {codec : Codec} {s s' : Server}

theorem Tracked.lt_of_mem (h : Tracked r codec s) {number : ℕ}
    (hmem : number ∈ numbers s.tasks ++ s.sent.map Sent.number) : number < s.asked.length := by
  rcases List.mem_append.mp hmem with hmem | hmem
  · obtain ⟨t, ht, hnumber⟩ := List.mem_filterMap.mp hmem
    exact (List.getElem?_eq_some_iff.mp ((h.tasks t ht).2 number hnumber)).1
  · obtain ⟨x, hx, rfl⟩ := List.mem_map.mp hmem
    obtain ⟨a, ha, -⟩ := (h.sent x hx).2
    exact (List.getElem?_eq_some_iff.mp ha).1

theorem getElem?_append_of_some {α : Type*} {l : List α} {n : ℕ} {a : α} (h : l[n]? = some a)
    (l' : List α) : (l ++ l')[n]? = some a := by
  rw [List.getElem?_append_left (List.getElem?_eq_some_iff.mp h).1, h]

/-- A request is read and gets the next number. -/
theorem tracked_ask (h : Tracked r codec s) (t : Task) {request : Bytes}
    (hstage : t.stage = .ready s.asked.length request) (hacl : r.acl.allows t.peer.ip = true)
    (hasked : s'.asked = s.asked ++ [⟨t.listener, t.peer, request⟩]) (hsent : s'.sent = s.sent)
    (hnumbers : (numbers s'.tasks).Perm (s.asked.length :: numbers s.tasks))
    (htasks : ∀ u ∈ s'.tasks, u ∈ s.tasks ∨ u = t) : Tracked r codec s' := by
  refine ⟨?_, fun u hu => ?_, fun x hx => ?_⟩
  · rw [hsent, (hnumbers.append_right _).nodup_iff, List.cons_append, List.nodup_cons]
    exact ⟨fun hmem => absurd (h.lt_of_mem hmem) (lt_irrefl _), h.once⟩
  · rw [hasked]
    rcases htasks u hu with hu | rfl
    · refine ⟨(h.tasks u hu).1, fun number hnumber => ?_⟩
      exact getElem?_append_of_some ((h.tasks u hu).2 number hnumber) _
    · refine ⟨hacl, fun number hnumber => ?_⟩
      rw [hstage] at hnumber ⊢
      obtain rfl : s.asked.length = number := Option.some.inj hnumber
      exact List.getElem?_concat_length
  · rw [hsent] at hx
    obtain ⟨hallowed, a, ha, hrest⟩ := h.sent x hx
    rw [hasked]
    exact ⟨hallowed, a, getElem?_append_of_some ha _, hrest⟩

/-- A task is over. -/
theorem tracked_endTask (h : Tracked r codec s) {n : ℕ} {t : Task}
    (htask : s.tasks[n]? = some t) : Tracked r codec (s.endTask n t) := by
  refine ⟨?_, fun u hu => h.tasks u (List.mem_of_mem_eraseIdx hu), h.sent⟩
  have honce := ((numbers_perm_cons htask).append_right _).nodup_iff.mp h.once
  rw [List.append_assoc] at honce
  exact (List.nodup_append.mp honce).2.1

/-- A task is done with its request, or goes on with it. -/
theorem tracked_set (h : Tracked r codec s) {n : ℕ} {t : Task}
    (htask : s.tasks[n]? = some t) (u : Task) (hlistener : u.listener = t.listener)
    (hpeer : u.peer = t.peer)
    (hstage : u.stage.number = none ∨
      u.stage.number = t.stage.number ∧ u.stage.request = t.stage.request) :
    Tracked r codec { s with tasks := s.tasks.set n u } := by
  have ht := h.tasks t (List.mem_of_getElem? htask)
  refine ⟨?_, fun v hv => ?_, h.sent⟩
  · have honce := ((numbers_perm_cons htask).append_right _).nodup_iff.mp h.once
    rw [((numbers_set_perm htask u).append_right _).nodup_iff]
    rcases hstage with hnone | ⟨hnumber, -⟩
    · rw [hnone]
      rw [List.append_assoc] at honce
      exact (List.nodup_append.mp honce).2.1
    · rw [hnumber]
      exact honce
  · rcases List.mem_or_eq_of_mem_set hv with hv | rfl
    · exact h.tasks v hv
    · rw [hlistener, hpeer]
      refine ⟨ht.1, fun number hnumber => ?_⟩
      rcases hstage with hnone | ⟨hnumber', hrequest⟩
      · rw [hnone] at hnumber
        cases hnumber
      · rw [hrequest]
        exact ht.2 number (hnumber' ▸ hnumber)

theorem tracked_congr (h : Tracked r codec s) (htasks : s'.tasks = s.tasks)
    (hasked : s'.asked = s.asked) (hsent : s'.sent = s.sent) : Tracked r codec s' := by
  refine ⟨?_, ?_, ?_⟩
  · rw [htasks, hsent]
    exact h.once
  · rw [htasks, hasked]
    exact h.tasks
  · rw [hsent, hasked]
    exact h.sent

/-- A request that is no longer under way is replied to. -/
theorem tracked_send (h : Tracked r codec s) {x : Sent} {request : Bytes}
    (hfresh : x.number ∉ numbers s.tasks ++ s.sent.map Sent.number)
    (hacl : r.acl.allows x.peer.ip = true)
    (hx : s.asked[x.number]? = some ⟨x.listener, x.peer, request⟩)
    (hid : SameId codec request x.message) (htasks : s'.tasks = s.tasks)
    (hasked : s'.asked = s.asked) (hsent : s'.sent = s.sent ++ [x]) : Tracked r codec s' := by
  refine ⟨?_, ?_, fun y hy => ?_⟩
  · rw [htasks, hsent, List.map_append, ← List.append_assoc]
    exact List.nodup_append.mpr ⟨h.once, List.nodup_singleton _, fun a ha b hb hab =>
      hfresh (List.mem_singleton.mp hb ▸ hab ▸ ha)⟩
  · rw [htasks, hasked]
    exact h.tasks
  · rw [hsent, List.mem_append, List.mem_singleton] at hy
    rw [hasked]
    rcases hy with hy | rfl
    · exact h.sent y hy
    · exact ⟨hacl, _, hx, rfl, rfl, hid⟩

/-- The tasks after the `n`-th is over or reads on. -/
def LetsGo (tasks tasks' : List Task) (n : ℕ) (t : Task) : Prop :=
  tasks' = tasks.eraseIdx n ∨ tasks' = tasks.set n { t with stage := .reading }

theorem tracked_letsGo (h : Tracked r codec s) {n number : ℕ} {t : Task}
    (htask : s.tasks[n]? = some t) (hnumber : t.stage.number = some number)
    {tasks : List Task} (hgo : LetsGo s.tasks tasks n t) :
    Tracked r codec { s with tasks } ∧ number ∉ numbers tasks ++ s.sent.map Sent.number := by
  have honce := ((numbers_perm_cons htask).append_right _).nodup_iff.mp h.once
  rw [hnumber, Option.toList_some, List.singleton_append, List.cons_append,
    List.nodup_cons] at honce
  rcases hgo with rfl | rfl
  · exact ⟨tracked_congr (tracked_endTask h htask) rfl rfl rfl, honce.1⟩
  · refine ⟨tracked_set h htask _ rfl rfl (.inl rfl), ?_⟩
    have hperm := (numbers_set_perm htask { t with stage := .reading }).append_right
      (s.sent.map Sent.number)
    rw [hperm.mem_iff]
    exact honce.1

/-- The reply of a task, with the request it had under way. -/
theorem tracked_reply (hcodec : KeepsId codec) (h : Tracked r codec s) {n number : ℕ} {t : Task}
    (htask : s.tasks[n]? = some t) (hnumber : t.stage.number = some number) {out : Served}
    (hreply : ∀ bytes, out.reply = some bytes → Replies codec t.stage.request bytes) :
    Tracked r codec (s.reply r codec n number t t.stage.request out) := by
  obtain ⟨hacl, hasked⟩ := h.tasks t (List.mem_of_getElem? htask)
  obtain ⟨message, hmessage, hend⟩ := reply_cases r codec s n number t t.stage.request out
  -- also the stub for a reply that is too long has the id of the request
  have hid : ∀ m ∈ message, SameId codec t.stage.request m := by
    intro m hm
    obtain ⟨response, hresponse, rfl | hfit⟩ := hmessage m hm
    · exact sameId_of_replies hcodec (hreply m hresponse)
    · exact sameId_of_fitUdp hcodec (sameId_of_replies hcodec (hreply response hresponse)) hfit
  obtain ⟨tasks, hgo, htasks, hasked', hsent⟩ : ∃ tasks, LetsGo s.tasks tasks n t ∧
      (s.reply r codec n number t t.stage.request out).tasks = tasks ∧
      (s.reply r codec n number t t.stage.request out).asked = s.asked ∧
      (s.reply r codec n number t t.stage.request out).sent =
        s.sent ++ (message.map (Sent.mk number t.listener t.peer)).toList := by
    rcases hend with hend | ⟨-, hread⟩
    · exact ⟨_, .inl rfl, by rw [hend]; rfl, by rw [hend]; rfl, by rw [hend]; rfl⟩
    · exact ⟨_, .inr rfl, by rw [hread], by rw [hread]; rfl, by rw [hread]; rfl⟩
  -- the task lets go of its request before anything is sent
  obtain ⟨htracked, hfresh⟩ := tracked_letsGo h htask hnumber hgo
  cases message with
  | none =>
    refine tracked_congr htracked htasks hasked' ?_
    rw [hsent, Option.map_none, Option.toList_none, List.append_nil]
  | some m =>
    exact tracked_send htracked hfresh hacl (hasked number hnumber) (hid m rfl) htasks hasked'
      hsent

theorem tracked_step (hcodec : KeepsId codec) (hsound : Sound r codec s)
    (h : Tracked r codec s) (e : Event) : Tracked r codec (step r codec e s) := by
  have hchange := change_step hsound e
  generalize step r codec e s = s' at hchange
  cases hchange with
  | quiet shared hstats harrival hlost => exact tracked_congr h rfl rfl rfl
  | denied harrival hacl => exact tracked_congr h rfl rfl rfl
  | full harrival hacl hfree => exact tracked_congr h rfl rfl rfl
  | @datagram addr peer payload free hacl hfree =>
    refine tracked_ask h ⟨⟨.udp, addr⟩, peer, .ready s.asked.length (payload.take 4096)⟩ rfl
      hacl rfl rfl ?_ fun u hu => ?_
    · rw [numbers_concat]
      exact List.perm_append_singleton _ _
    · exact (List.mem_append.mp hu).imp_right List.mem_singleton.mp
  | @connection addr peer free hacl hfree =>
    refine ⟨?_, fun u hu => ?_, h.sent⟩
    · rw [numbers_concat]
      exact (List.append_nil (numbers s.tasks)).symm ▸ h.once
    · obtain hu | rfl := (List.mem_append.mp hu).imp_right List.mem_singleton.mp
      · exact h.tasks u hu
      · exact ⟨hacl, fun number hnumber => by cases hnumber⟩
  | @frame n l peer request htask =>
    have ht := h.tasks _ (List.mem_of_getElem? htask)
    refine tracked_ask h ⟨l, peer, .ready s.asked.length request⟩ rfl ht.1 rfl rfl ?_ fun u hu => ?_
    · -- the task had no request under way
      refine (numbers_set_perm htask _).trans (.cons _ ?_)
      exact (numbers_perm_cons htask).symm
    · exact List.mem_or_eq_of_mem_set hu
  | @suspended n l peer number request env st htask hst =>
    have hset := tracked_set h htask
      ⟨l, peer, .waiting number request { env with codec } s.shared⟩ rfl rfl (.inr ⟨rfl, rfl⟩)
    exact tracked_congr hset rfl rfl rfl
  | decided htask ho hends => exact tracked_reply hcodec h htask rfl hends.reply
  | woken htask ho hends => exact tracked_reply hcodec h htask rfl hends.reply
  | dropped htask => exact tracked_endTask h htask

end Steps

/-- Whatever the order of events: every reply is for a request that its recipient, who may query,
sent to the same socket, it has the transaction ID of that request, and no two replies are for
one request. -/
theorem rightful_run {codec : Codec} (hcodec : KeepsId codec) (r : Resolver)
    (blocklist : Blocklist) (cache : Cache) (events : List Event) :
    Rightful r codec (run (step r codec) events (.start r blocklist cache)) := by
  have hstep : ∀ e s, Sound r codec s ∧ Tracked r codec s →
      Sound r codec (step r codec e s) ∧ Tracked r codec (step r codec e s) :=
    fun e s hs => ⟨sound_step hs.1 e, tracked_step hcodec hs.1 hs.2 e⟩
  have hstart : Tracked r codec (.start r blocklist cache) :=
    ⟨List.nodup_nil, fun t ht => by simp [Server.start] at ht, fun x hx => by
      simp [Server.start] at hx⟩
  exact (run_invariant hstep events ⟨sound_start r codec blocklist cache, hstart⟩).2.rightful

theorem keepsId_ofTable {table : List (Bytes × Message)} (hnodup : (table.map Prod.fst).Nodup) :
    KeepsId (.ofTable table) :=
  fun m _ hbytes => ⟨m, Codec.fromVec_of_toVec_ofTable hnodup hbytes, rfl⟩

/-! ### Two requests at a time -/

def otherClient : SocketAddr := ⟨.v4 (Ipv4Addr.ofOctets 192 168 1 21), 5353⟩

/-- Both requests wait, and the second is replied to first. -/
def crossing : List Event :=
  [.datagram ⟨.v4 0, 53⟩ anyClient exampleQueryBytes,
    .datagram ⟨.v4 0, 53⟩ otherClient exampleQueryBytes,
    .handle 0 (silentEnv servFailTable), .handle 1 (silentEnv servFailTable), .wake 1, .wake 0]

theorem rightful_run_crossing :
    Rightful sampleResolver (.ofTable servFailTable)
        (run (step sampleResolver (.ofTable servFailTable)) crossing
          (.start sampleResolver denyAds.blocklist denyAds.cache)) ∧
      ((run (step sampleResolver (.ofTable servFailTable)) crossing
        (.start sampleResolver denyAds.blocklist denyAds.cache)).sent.map fun x =>
          (x.number, x.peer)) = [(1, otherClient), (0, anyClient)] :=
  ⟨rightful_run (keepsId_ofTable (by decide)) sampleResolver denyAds.blocklist denyAds.cache
    crossing, by decide +kernel⟩

end Netwatch.Dns
