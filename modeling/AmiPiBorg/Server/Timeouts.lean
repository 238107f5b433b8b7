import AmiPiBorg.Server.Reads

/-!
# Requests that time out (`server/connection.c`, `library/request.c`)

The ticks that a request has left are in the request itself, where the client does not see them. `APB_HandleClientRequest`
sets them for a request with a timeout, and leaves what is there for one without. `Clients` are the server and the memory
of the request objects, which come to the server with what they had and go back with what they have. So a request that
is sent without a timeout times out if its object has ticks left, from its last use or from whatever used the memory
before.

* `checkRequestTimeouts_eq`: a tick, for all connections at once.
* `Adds`: what the other steps do to the queues, and that they reply to no request as timed out.
* `timed_out`, `times_out_as_asked`: when a request can time out.
-/

set_option autoImplicit false

namespace AmiPiBorg

open ProgLib

namespace Server

variable {env : Env} {s s' t : Server} {c c' : Connection} {req : Request} {e : Event} {P : Request → Prop}

/-! ## Ticks -/

/-- A connection after a tick. -/
def ticked (c : Connection) : Connection := { c with reqQueue := (tickRequests c.reqQueue).2 }

/-- The request of a connection that times out with a tick. -/
def expired (c : Connection) : List Request := (tickRequests c.reqQueue).1.toList

theorem foldl_cnnCheckRequestTimeouts (cs : List Connection) (s : Server) : cs.foldl cnnCheckRequestTimeouts s =
    { s with connections := cs.foldl (fun m c => Keyed.put Connection.num m (ticked c)) s.connections,
             replied := s.replied ++ cs.flatMap expired } := by
  induction cs generalizing s with
  | nil => simp
  | cons c cs ih =>
    rw [List.foldl_cons, ih]
    simp [cnnCheckRequestTimeouts, put, ticked, expired]

/-- **What a tick does.** -/
theorem checkRequestTimeouts_eq (d : s.Distinct) : s.checkRequestTimeouts =
    { s with connections := s.connections.map ticked, replied := s.replied ++ s.connections.flatMap expired } := by
  have hput : s.connections.foldl (fun m c => Keyed.put Connection.num m (ticked c)) s.connections =
      s.connections.map ticked := Keyed.foldl_put ticked (fun _ => rfl) d.nodup
  rw [checkRequestTimeouts, foldl_cnnCheckRequestTimeouts, hput]

/-! ## The other steps -/

/-- From `s` to `s'`, only requests as `P` says have come to the queues, and none was replied to as timed out. -/
structure Adds (P : Request → Prop) (s s' : Server) : Prop where
  queued : ∀ c ∈ s'.connections, ∀ r ∈ c.reqQueue, (∃ b ∈ s.connections, r ∈ b.reqQueue) ∨ P r
  replied : ∀ r ∈ s'.replied, r ∈ s.replied ∨ r.state ≠ .timeout

theorem Adds.of_eq (hc : s'.connections = s.connections) (hr : s'.replied = s.replied) : Adds P s s' :=
  ⟨fun c h _ hq => .inl ⟨c, hc ▸ h, hq⟩, fun _ h => .inl (hr ▸ h)⟩

theorem Quiet.adds (h : Quiet s s') : Adds P s s' := .of_eq h.connections h.replied

theorem Adds.trans (h : Adds (fun _ => False) s t) (h' : Adds P t s') : Adds P s s' := by
  refine ⟨fun c hc r hr => ?_, fun r hr => ?_⟩
  · obtain ⟨b, hb, hr⟩ | hP := h'.queued c hc r hr
    · exact (h.queued b hb r hr).imp_right False.elim
    · exact .inr hP
  · obtain hr | hs := h'.replied r hr
    · exact h.replied r hr
    · exact .inr hs

theorem Adds.reply (h : Adds P s t) {r : Request} (hr : r.state ≠ .timeout) : Adds P s (t.reply r) := by
  refine ⟨h.queued, fun q hq => ?_⟩
  obtain hq | hq := List.mem_append.1 hq
  · exact h.replied q hq
  · rw [List.mem_singleton.1 hq]
    exact .inr hr

/-- A connection is written back with what it had, and more as `P` says. -/
theorem Adds.put (h : Adds P s t) (hc : ∀ r ∈ c'.reqQueue, (∃ b ∈ s.connections, r ∈ b.reqQueue) ∨ P r) :
    Adds P s (t.put c') := by
  refine ⟨fun b hb r hr => ?_, h.replied⟩
  obtain rfl | hb := Keyed.mem_put hb
  · exact hc r hr
  · exact h.queued b hb.1 r hr

theorem push_mem {r : Request} (hr : r ∈ (push c).2.reqQueue) : r ∈ c.reqQueue := by
  unfold push at hr
  split at hr
  · exact hr
  · exact (deliver_requests _ _).subset hr

theorem push_state_ne {r : Request} (hr : r ∈ (push c).1) : r.state ≠ .timeout := by
  unfold push at hr
  split at hr
  · cases hr
  · exact deliver_state _ _ r hr

theorem Answers.adds {state : RequestState} {reqs out rest : List Request} (h : Answers state reqs out rest)
    (hs : state ≠ .timeout) : (∀ r ∈ rest, r ∈ reqs) ∧ ∀ r ∈ out, r.state ≠ .timeout := by
  obtain ⟨-, rfl, rfl⟩ | ⟨q, hq, rfl⟩ := h
  · exact ⟨fun _ hr => hr, fun _ hr => absurd hr List.not_mem_nil⟩
  · refine ⟨fun r hr => (takeRequest_perm hq).mem_iff.2 (List.mem_cons_of_mem _ hr), fun r hr => ?_⟩
    rw [List.mem_singleton.1 hr]
    exact hs

/-- A packet brings no request to a connection, and makes none time out. -/
theorem Move.packet_adds {ip : InPac} {out : List Request} (m : Move c (.packet ip) out c') :
    (∀ r ∈ c'.reqQueue, r ∈ c.reqQueue) ∧ ∀ r ∈ out, r.state ≠ .timeout := by
  cases m with
  | connected _ ha => exact ha.adds (by decide)
  | noHandler _ ha => exact ha.adds (by decide)
  | dropped _ _ => exact ⟨fun _ hr => hr, fun _ hr => absurd hr List.not_mem_nil⟩
  | queued _ _ =>
    exact ⟨fun _ hr => push_mem (c := { c with packetQueue := c.packetQueue ++ [ip] }) hr, fun _ hr => push_state_ne hr⟩

theorem adds_handlePacket (env : Env) (d : s.Distinct) (ip : InPac) : Adds P s (s.handlePacket env ip) := by
  obtain ⟨-, h₁, h₂⟩ | ⟨c, hc, ⟨out, c', m, hr, hcs⟩ | ⟨-, h₂, h₁⟩⟩ := handlePacket_moved env d ip
  · exact .of_eq h₁ h₂
  · have hm := m.packet_adds
    refine ⟨fun b hb r hr => .inl ?_, fun r hq => ?_⟩
    · rw [hcs] at hb
      obtain rfl | hb := Keyed.mem_put hb
      · exact ⟨c, mem_of_target hc, hm.1 r hr⟩
      · exact ⟨b, hb.1, hr⟩
    · rw [hr] at hq
      exact (List.mem_append.1 hq).imp_right (hm.2 r)
  · exact ⟨fun b hb r hr => .inl ⟨b, h₁ b hb, hr⟩, fun r hr => .inl (h₂ ▸ hr)⟩

/-- The request is on a queue as it came, with its ticks set if it has a timeout. -/
def Loaded (req r : Request) : Prop :=
  r.num = req.num ∧ r.timeout = req.timeout ∧
    r.timeoutTicks = if 0 < req.timeout then req.timeout else req.timeoutTicks

theorem adds_pushToClient (h : Adds P s t) (c : Connection) : Adds P s (t.pushToClient c).1 := by
  obtain ⟨-, hr, hc⟩ := pushToClient_push t c
  refine ⟨fun b hb => h.queued b (hc ▸ hb), fun r hq => ?_⟩
  rw [hr] at hq
  obtain hq | hq := List.mem_append.1 hq
  · exact h.replied r hq
  · exact .inr (push_state_ne hq)

theorem adds_handleClientRequest (env : Env) (hc : c ∈ s.connections) (req : Request) :
    Adds (Loaded req) s (s.handleClientRequest env c req) := by
  have hself : Adds (Loaded req) s s := .of_eq rfl rfl
  have hqueue : ∀ r ∈ c.reqQueue ++ [received c req], (∃ b ∈ s.connections, r ∈ b.reqQueue) ∨ Loaded req r := by
    intro r hr
    obtain hr | hr := List.mem_append.1 hr
    · exact .inl ⟨c, hc, hr⟩
    · rw [List.mem_singleton.1 hr]
      exact .inr ⟨rfl, rfl, rfl⟩
  unfold handleClientRequest
  dsimp only
  by_cases h₁ : req.type = rtOpen
  · obtain ⟨os, state, he, -⟩ := cnnConnect_eq env s
      { c with handlerId := req.handlerId, reqQueue := c.reqQueue ++ [received c req] }
    have ha : Adds (Loaded req) s { s with allocs := s.allocs + 1, out := s.out ++ os } := .of_eq rfl rfl
    rw [if_pos h₁]
    exact Eq.subst (motive := fun x => Adds (Loaded req) s (x.1.put x.2)) he.symm (ha.put hqueue)
  rw [if_neg h₁]
  by_cases h₂ : req.type = rtClose
  · obtain ⟨n, os, state, he, -⟩ := disconnect_eq env s c
    have ha : Adds (Loaded req) s { s with allocs := n, out := s.out ++ os } := .of_eq rfl rfl
    rw [if_pos h₂, he]
    refine Adds.reply (Adds.put ha ?_) ?_
    · exact fun r hr => .inl ⟨c, hc, hr⟩
    · simp
  rw [if_neg h₂]
  by_cases h₃ : req.type = rtRead
  · rw [if_pos h₃]
    split
    · exact hself.reply (by simp)
    split
    · exact hself.reply (by simp)
    · refine (adds_pushToClient hself _).put fun r hr => hqueue r ?_
      rw [(pushToClient_push s _).1] at hr
      exact push_mem hr
  rw [if_neg h₃]
  by_cases h₄ : req.type = rtWrite
  · rw [if_pos h₄]
    split
    · exact hself.reply (by simp)
    split
    · exact hself.reply (by simp)
    · obtain ⟨os, hs, -⟩ := send_eq env s ((sizeofPacket + req.length.toNat) % 65536)
        ⟨some c.num, c.id, ptData, req.data.take req.length.toNat⟩
      unfold pushToRemote
      dsimp only
      rw [hs]
      have ha : Adds (Loaded req) s { s with allocs := s.allocs + 1, out := s.out ++ os } := .of_eq rfl rfl
      refine ha.reply ?_
      split <;> simp
  · rw [if_neg h₄]
    exact hself.reply (by simp)

/-- **What a request adds**, if it is not replied to at once. -/
theorem adds_receiveRequest (h : s.receiveRequest env req = some s') : Adds (Loaded req) s s' := by
  have hself : Adds (Loaded req) s s := .of_eq rfl rfl
  unfold receiveRequest at h
  split at h
  · unfold handleClientControlMessage createConnection at h
    dsimp only at h
    split at h
    · cases hc : env.connection s.creations with
      | none =>
        rw [hc] at h
        cases h
      | some state =>
        rw [hc] at h
        cases h
        have hnew : Adds (fun _ => False) s (s.withNew state) := by
          refine ⟨fun b hb r hr => ?_, fun r hr => .inl hr⟩
          obtain hb | hb := List.mem_append.1 hb
          · exact .inl ⟨b, hb, hr⟩
          · rw [List.mem_singleton.1 hb] at hr
            cases hr
        exact hnew.trans (adds_handleClientRequest env (List.mem_append_right _ (List.mem_singleton.2 rfl))
          { req with state := .ok })
    split at h
    · cases h
      have hquit : Adds (Loaded req) s { s with state := .disconnected, quit := true } := .of_eq rfl rfl
      exact hquit.reply (by simp)
    split at h
    · cases h
      exact hself.reply (by simp)
    · cases h
      exact hself.reply (by simp)
  · cases hf : s.findConnection req.connId with
    | none =>
      rw [hf] at h
      cases h
      exact hself.reply (by simp)
    | some c =>
      rw [hf] at h
      cases h
      exact adds_handleClientRequest env (mem_of_findConnection hf) req

/-- A tick: the server is connected, and the timer signal is there. -/
def Ticks (s : Server) (e : Event) : Prop := e = .timer true ∧ s.state = .connected

instance (s : Server) (e : Event) : Decidable (s.Ticks e) :=
  match e with
  | .timer true => decidable_of_iff (s.state = .connected) ⟨fun h => ⟨rfl, h⟩, And.right⟩
  | .timer false => .isFalse fun h => by cases h.1
  | .run _ => .isFalse fun h => by cases h.1
  | .wake _ => .isFalse fun h => by cases h.1
  | .request _ => .isFalse fun h => by cases h.1
  | .requestsDone => .isFalse fun h => by cases h.1
  | .packet .. => .isFalse fun h => by cases h.1
  | .packetsDone => .isFalse fun h => by cases h.1

/-- What comes to the queues with an event. -/
def Brings (s : Server) (e : Event) (r : Request) : Prop :=
  ∃ req, e = .request req ∧ Loaded { req with num := s.taken } r

/-- **Every step but a tick.** -/
theorem adds_step (d : s.Distinct) (hn : ¬s.Ticks e) (h : step env s e = some s') : Adds (s.Brings e) s s' := by
  cases e with
  | run ok =>
    cases h
    exact (quiet_runStep env s ok).adds
  | wake brk =>
    cases h
    split <;> exact .of_eq rfl rfl
  | timer fired =>
    cases h
    cases fired with
    | false => exact .of_eq rfl rfl
    | true =>
      have hs : s.state ≠ .connected := fun h => hn ⟨rfl, h⟩
      unfold handleTimer
      cases hst : s.state with
      | connected => exact absurd hst hs
      | _ => exact .of_eq rfl rfl
  | request req =>
    have ha := adds_receiveRequest (s := { s with taken := s.taken + 1 }) h
    refine ⟨fun c hc r hr => ?_, ha.replied⟩
    exact (ha.queued c hc r hr).imp_right fun hl => ⟨req, rfl, hl⟩
  | requestsDone =>
    cases h
    exact .of_eq rfl rfl
  | packet seq pac =>
    cases h
    have d' : ({ s with dequeued := s.dequeued + 1 } : Server).Distinct := d.congr rfl (Nat.le_refl _)
    have ha : Adds (s.Brings (.packet seq pac)) _ _ := adds_handlePacket env d' ⟨s.dequeued, seq, pac⟩
    exact ⟨ha.queued, ha.replied⟩
  | packetsDone =>
    cases h
    exact .of_eq rfl rfl

/-- **A tick.** -/
theorem tick_step (d : s.Distinct) (ht : s.Ticks e) (h : step env s e = some s') :
    s'.connections = s.connections.map ticked ∧ s'.replied = s.replied ++ s.connections.flatMap expired := by
  obtain ⟨rfl, hs⟩ := ht
  cases h
  have hq := (quiet_checkPing s).trans (quiet_nextPing env s.checkPing)
  have he := checkRequestTimeouts_eq ((hq.accounted d).distinct)
  simp only [if_true, handleTimer, hs]
  rw [he, hq.connections, hq.replied]
  exact ⟨rfl, rfl⟩

end Server

/-! ## Request objects -/

/-- A request object that was sent. -/
structure Sending where
  obj : Nat
  timeout : UInt16
  /-- `ri_TimeoutTicks`, when the server took it. -/
  left : UInt16
  /-- The number of ticks before that. -/
  tick : Nat
  deriving DecidableEq

/-- The server, and the clients' request objects. -/
structure Clients where
  server : Server
  /-- `ri_TimeoutTicks` of an object that the server does not have. -/
  ticks : Nat → UInt16
  /-- Ghost: the requests that the server took, in their order. -/
  sent : List Sending
  /-- Ghost: the calls of `APB_CheckRequestTimeouts`. -/
  checks : Nat

namespace Clients

open Server

/-- The server starts, whatever is in the memory of the objects. -/
def start (ticks : Nat → UInt16) : Clients := { server := .start, ticks := ticks, sent := [], checks := 0 }

/-- A request is taken as it is in memory. Its number is that of the object, until the server numbers it. -/
def load (s : Clients) : Event → Event
  | .request req => .request { req with timeoutTicks := s.ticks req.num }
  | e => e

/-- The request that is taken. -/
def sending (s : Clients) : Event → List Sending
  | .request req => [⟨req.num, req.timeout, s.ticks req.num, s.checks⟩]
  | _ => []

/-- The objects of these replies are back. -/
def collect (sent : List Sending) (ticks : Nat → UInt16) (rs : List Request) : Nat → UInt16 :=
  rs.foldl (fun m r => sent[r.num]?.elim m fun q => Function.update m q.obj r.timeoutTicks) ticks

def step (env : Env) (s : Clients) (e : Event) : Option Clients :=
  (Server.step env s.server (s.load e)).map fun t =>
    { server := t
      ticks := collect (s.sent ++ s.sending e) s.ticks (t.replied.drop s.server.replied.length)
      sent := s.sent ++ s.sending e
      checks := if s.server.Ticks e then s.checks + 1 else s.checks }

/-- The event can happen, and an object that is sent is not with the server. -/
def Legal (s : Clients) (e : Event) : Prop :=
  s.server.Enabled e ∧ ∀ q ∈ s.sending e, ∀ p ∈ s.sent.zipIdx, p.1.obj = q.obj → p.2 ∈ s.server.replied.map Request.num

instance (s : Clients) (e : Event) : Decidable (s.Legal e) := inferInstanceAs (Decidable (_ ∧ _))

/-- A request that is sent without a timeout has no ticks left. -/
def Cleared (s : Clients) (e : Event) : Prop := ∀ q ∈ s.sending e, q.timeout = 0 → q.left = 0

instance (s : Clients) (e : Event) : Decidable (s.Cleared e) :=
  inferInstanceAs (Decidable (∀ q ∈ s.sending e, q.timeout = 0 → q.left = 0))

/-- Every request that was replied to as timed out had a timeout, of no more ticks than there have been since. -/
def OnTime (s : Clients) : Prop := ∀ r ∈ s.server.replied, r.state = .timeout →
  ∃ q, s.sent[r.num]? = some q ∧ q.timeout ≠ 0 ∧ q.tick + q.timeout.toNat ≤ s.checks

variable {env : Env} {s s' t : Clients} {e : Event}

/-- The ticks that a queued request has left, after those since it was taken. -/
def Left (sent : List Sending) (checks : Nat) (r : Request) : Prop :=
  ∃ q, sent[r.num]? = some q ∧ (q.timeout = 0 → q.left = 0 → r.timeoutTicks = 0) ∧
    q.tick + q.timeout.toNat ≤ checks + r.timeoutTicks.toNat

/-- A request without a timeout had ticks left when it was sent, and one with a timeout has had its ticks. -/
def Late (sent : List Sending) (checks : Nat) (r : Request) : Prop :=
  ∃ q, sent[r.num]? = some q ∧ (q.timeout = 0 → q.left ≠ 0) ∧ q.tick + q.timeout.toNat ≤ checks

/-- What holds between the events. -/
structure Timed (s : Clients) : Prop where
  distinct : s.server.Distinct
  taken : s.sent.length = s.server.taken
  queued : ∀ c ∈ s.server.connections, ∀ r ∈ c.reqQueue, Left s.sent s.checks r
  replied : ∀ r ∈ s.server.replied, r.state = .timeout → Late s.sent s.checks r

theorem timed_start (ticks : Nat → UInt16) : (start ticks).Timed where
  distinct := distinct_start
  taken := rfl
  queued _ hc := absurd hc List.not_mem_nil
  replied _ hr := absurd hr List.not_mem_nil

theorem getElem?_sent {sent more : List Sending} {n : Nat} {q : Sending} (h : sent[n]? = some q) :
    (sent ++ more)[n]? = some q := by
  rw [List.getElem?_append_left (List.getElem?_eq_some_iff.1 h).1, h]

theorem Left.later {sent more : List Sending} {n m : Nat} {r : Request} (h : Left sent n r) (hn : n ≤ m) :
    Left (sent ++ more) m r := by
  obtain ⟨q, hq, hz, hle⟩ := h
  exact ⟨q, getElem?_sent hq, hz, by omega⟩

theorem Late.later {sent more : List Sending} {n m : Nat} {r : Request} (h : Late sent n r) (hn : n ≤ m) :
    Late (sent ++ more) m r := by
  obtain ⟨q, hq, hz, hle⟩ := h
  exact ⟨q, getElem?_sent hq, hz, by omega⟩

/-- A request has at most one tick less after a tick. -/
theorem Left.ticked {sent : List Sending} {n : Nat} {c : Connection} (h : ∀ r ∈ c.reqQueue, Left sent n r) :
    ∀ r ∈ (Server.ticked c).reqQueue, Left sent (n + 1) r := by
  intro r hr
  obtain ⟨q, hq, m, rfl, hle, hzero⟩ := tickRequests_left hr
  obtain ⟨p, hp, hz, hle'⟩ := h q hq
  refine ⟨p, hp, fun h₀ h₁ => hzero (hz h₀ h₁), ?_⟩
  dsimp only
  omega

theorem Left.expired {sent : List Sending} {n : Nat} {c : Connection} (h : ∀ r ∈ c.reqQueue, Left sent n r) :
    ∀ r ∈ Server.expired c, Late sent (n + 1) r := by
  intro r hr
  obtain ⟨q, hq, h1, rfl⟩ := tickRequests_expired hr
  obtain ⟨p, hp, hz, hle⟩ := h q hq
  refine ⟨p, hp, fun h₀ h₁ => ?_, ?_⟩
  · rw [hz h₀ h₁] at h1
    exact absurd h1 (by decide)
  · rw [h1] at hle
    exact hle

/-- A request that was taken has all its ticks left. -/
theorem Left.loaded {sent : List Sending} {n : Nat} {req r : Request} {left : UInt16}
    (h : Loaded { req with num := sent.length, timeoutTicks := left } r) :
    Left (sent ++ [⟨req.num, req.timeout, left, n⟩]) n r := by
  obtain ⟨hnum, -, hticks⟩ := h
  refine ⟨⟨req.num, req.timeout, left, n⟩, ?_, fun h₀ h₁ => ?_, ?_⟩
  · rw [hnum]
    exact List.getElem?_concat_length
  · dsimp only at h₀ h₁ hticks
    rw [hticks, h₀, if_neg (by decide), h₁]
  · dsimp only at hticks ⊢
    rw [hticks]
    split
    · exact Nat.le_refl _
    · next h0 =>
      have hz : req.timeout.toNat = 0 := by
        rw [UInt16.lt_iff_toNat_lt] at h0
        simpa using h0
      omega

theorem step_some (h : step env s e = some s') : ∃ t, Server.step env s.server (s.load e) = some t ∧ s'.server = t ∧
    s'.sent = s.sent ++ s.sending e ∧ s'.checks = if s.server.Ticks e then s.checks + 1 else s.checks := by
  obtain ⟨t, ht, rfl⟩ := Option.map_eq_some_iff.1 h
  exact ⟨t, ht, rfl, rfl, rfl⟩

theorem ticks_load : s.server.Ticks (s.load e) ↔ s.server.Ticks e := by
  cases e <;> simp [load, Ticks]

theorem Timed.step (h : s.Timed) (he : step env s e = some s') : s'.Timed := by
  obtain ⟨t, ht, hserver, hsent, hchecks⟩ := step_some he
  have hb := booked_step h.distinct ht
  have htaken : s'.sent.length = s'.server.taken := by
    rw [hsent, hserver, hb.taken, List.length_append, h.taken]
    cases e <;> rfl
  by_cases hk : s.server.Ticks e
  · obtain ⟨hc, hr⟩ := tick_step h.distinct (ticks_load.2 hk) ht
    have hnone : s.sending e = [] := by
      obtain ⟨rfl, -⟩ := hk
      rfl
    rw [if_pos hk] at hchecks
    rw [hnone, List.append_nil] at hsent
    refine ⟨hserver ▸ hb.distinct, htaken, fun c hm r hq => ?_, fun r hm hs => ?_⟩
    · rw [hserver, hc] at hm
      obtain ⟨b, hb, rfl⟩ := List.mem_map.1 hm
      rw [hsent, hchecks]
      exact Left.ticked (h.queued b hb) r hq
    · rw [hserver, hr] at hm
      rw [hsent, hchecks]
      obtain hm | hm := List.mem_append.1 hm
      · have hl := @Late.later _ [] _ _ _ (h.replied r hm hs) (Nat.le_succ s.checks)
        rwa [List.append_nil] at hl
      · obtain ⟨b, hb, hm⟩ := List.mem_flatMap.1 hm
        exact Left.expired (h.queued b hb) r hm
  · have ha := adds_step h.distinct (fun hk' => hk (ticks_load.1 hk')) ht
    rw [if_neg hk] at hchecks
    refine ⟨hserver ▸ hb.distinct, htaken, fun c hm r hq => ?_, fun r hm hs => ?_⟩
    · rw [hserver] at hm
      rw [hsent, hchecks]
      obtain ⟨b, hb, hq⟩ | ⟨req, hreq, hl⟩ := ha.queued c hm r hq
      · exact (h.queued b hb r hq).later (Nat.le_refl _)
      · cases e with
        | request req' =>
          cases hreq
          rw [← h.taken] at hl
          exact Left.loaded hl
        | _ => cases hreq
    · rw [hserver] at hm
      rw [hsent, hchecks]
      exact (h.replied r ((ha.replied r hm).resolve_right fun hne => hne hs) hs).later (Nat.le_refl _)

/-- **When a request times out.** Whatever the objects are used for and whatever is in their memory, a request that was
sent with a timeout is not replied to as timed out before it, and one that was sent without is only if it had ticks
left. -/
theorem timed_out (ticks : Nat → UInt16) {es : List Event} (h : runs (step env) (start ticks) es = some t) :
    ∀ r ∈ t.server.replied, r.state = .timeout → Late t.sent t.checks r :=
  (runs_inv Timed (fun _ _ _ hI _ hs => hI.step hs) (timed_start ticks)
    (along_of_forall (fun _ _ => trivial) es _ : Along (fun _ _ => True) _ _ es) h).replied

/-- **Every request times out as its client asked**, if no request that is sent without a timeout has ticks left. -/
theorem times_out_as_asked (env : Env) (ticks : Nat → UInt16) {es : List Event} {t : Clients}
    (ha : Along Cleared (step env) (start ticks) es) (h : runs (step env) (start ticks) es = some t) : t.OnTime := by
  have hstart : (start ticks).Timed ∧ ∀ q ∈ (start ticks).sent, q.timeout = 0 → q.left = 0 :=
    ⟨timed_start ticks, fun _ hq => absurd hq List.not_mem_nil⟩
  obtain ⟨hI, hz⟩ := runs_inv (fun s => s.Timed ∧ ∀ q ∈ s.sent, q.timeout = 0 → q.left = 0) (fun s e s' hI hc hs => by
    refine ⟨hI.1.step hs, fun q hq => ?_⟩
    obtain ⟨-, -, -, hsent, -⟩ := step_some hs
    rw [hsent] at hq
    exact (List.mem_append.1 hq).elim (hI.2 q) (hc q)) hstart ha h
  intro r hr hs
  obtain ⟨q, hq, hleft, hle⟩ := hI.replied r hr hs
  exact ⟨q, hq, fun h₀ => hleft h₀ (hz q (List.mem_of_getElem? hq) h₀), hle⟩

/-! ### An object that is used again -/

/-- A read with this object and this timeout. -/
def readWith (obj : Nat) (timeout : UInt16) : Request := { ask rtRead 1 with num := obj, timeout := timeout }

/-- A turn of the loop of `APB_Run` with the timer signal. -/
def tickTurn : List Event := [.run true, .wake false, .timer true, .requestsDone, .packetsDone]

/-- A read with a timeout of two ticks gets data at once, and then its object is used for one without a timeout. -/
def usedAgain : List Event :=
  greeting ++ pass [ask rtOpen 0] [bare 2 ptConnected 1] ++ pass [readWith 7 2] [⟨0, 3, ⟨ptData, 0, 1, 3, [104]⟩⟩] ++
    pass [readWith 7 0] [] ++ tickTurn ++ tickTurn

/-- The second read times out. -/
theorem usedAgain_times_out : Along Legal (step plenty) (start fun _ => 0) usedAgain ∧
    ∃ t, runs (step plenty) (start fun _ => 0) usedAgain = some t ∧ ¬t.OnTime := by
  refine ⟨by decide +kernel, ?_⟩
  have h : (runs (step plenty) (start fun _ => 0) usedAgain).map (fun t =>
      (t.server.replied.map fun r => (r.num, decide (r.state = .timeout)), t.sent.map Sending.timeout)) =
      some ([(0, false), (1, false), (2, true)], [0, 2, 0]) := by
    decide +kernel
  obtain ⟨t, ht, he⟩ := Option.map_eq_some_iff.1 h
  obtain ⟨hreplied, hsent⟩ := Prod.mk.inj he
  have hm : (2, true) ∈ t.server.replied.map fun r => (r.num, decide (r.state = .timeout)) := by
    rw [hreplied]
    decide
  obtain ⟨r, hr, hrn⟩ := List.mem_map.1 hm
  obtain ⟨hnum, hstate⟩ := Prod.mk.inj hrn
  refine ⟨t, ht, fun ho => ?_⟩
  obtain ⟨q, hq, hne, -⟩ := ho r hr (of_decide_eq_true hstate)
  have hq' : (t.sent.map Sending.timeout)[2]? = some q.timeout := by
    rw [List.getElem?_map, ← hnum, hq, Option.map_some]
  rw [hsent] at hq'
  exact hne (Option.some.inj hq').symm

/-- The second read has a timeout too. -/
def askedAgain : List Event :=
  greeting ++ pass [ask rtOpen 0] [bare 2 ptConnected 1] ++ pass [readWith 7 2] [⟨0, 3, ⟨ptData, 0, 1, 3, [104]⟩⟩] ++
    pass [readWith 7 1] [] ++ tickTurn

theorem askedAgain_on_time : ∃ t, runs (step plenty) (start fun _ => 0) askedAgain = some t ∧ t.OnTime := by
  have h : (runs (step plenty) (start fun _ => 0) askedAgain).isSome = true := by
    decide +kernel
  obtain ⟨t, ht⟩ := Option.isSome_iff_exists.1 h
  exact ⟨t, ht, times_out_as_asked plenty (fun _ => 0) (by decide +kernel) ht⟩

end Clients

end AmiPiBorg
