import AmiPiBorg.Server.Books

/-!
# What a step does with a connection

`Move c act out c'` is what happens at connection `c` when a packet, a request or a tick comes to it: it is `c'` then,
and replies to the requests `out`. `step_inv` is the rule that follows: what every move keeps of a connection, and what
is true of all that it replies, is kept by the steps of the server.
-/

set_option autoImplicit false

namespace AmiPiBorg.Server

open ProgLib

variable {env : Env} {s s' t : Server} {c c' : Connection} {ip : InPac} {req : Request} {e : Event}

/-- What comes to a connection. -/
inductive Act where
  | packet (ip : InPac)
  | request (req : Request)
  | tick

/-- `APB_PushToClient`, seen from the connection. -/
def push (c : Connection) : List Request × Connection :=
  if c.state ≠ csConnected then ([], c)
  else ((deliver c.packetQueue c.reqQueue).replied,
    { c with packetQueue := (deliver c.packetQueue c.reqQueue).packets,
             reqQueue := (deliver c.packetQueue c.reqQueue).requests })

/-- The first `APB_RT_OPEN` among the requests, if there is one, is replied to with this state. -/
def Answers (state : RequestState) (reqs : List Request) (out rest : List Request) : Prop :=
  takeRequest rtOpen reqs = none ∧ out = [] ∧ rest = reqs ∨
    ∃ r, takeRequest rtOpen reqs = some (r, rest) ∧ out = [{ r with state := state }]

/-- A request as `APB_HandleClientRequest` begins with it. -/
def received (c : Connection) (req : Request) : Request :=
  { req with state := .ok, actual := 0, connId := c.id,
             timeoutTicks := if 0 < req.timeout then req.timeout else req.timeoutTicks }

/-- The types of packets that `APB_HandleConnectionPacket` names. -/
def NamedType (type : UInt8) : Prop := type = ptConnected ∨ type = ptDisconnected ∨ type = ptNoHandler

/-- No reads are taken. -/
def Unreadable (c : Connection) : Prop := c.state = csDisconnecting ∨ c.state = csDisconnected ∨ c.state = csNoHandler

/-- What happens at connection `c`. -/
inductive Move (c : Connection) : Act → List Request → Connection → Prop
  | connected {ip : InPac} {out rs : List Request} : ip.pac.type = ptConnected → Answers .ok c.reqQueue out rs →
      Move c (.packet ip) out { c with state := csConnected, reqQueue := rs }
  | noHandler {ip : InPac} {out rs : List Request} : ip.pac.type = ptNoHandler →
      Answers .noHandler c.reqQueue out rs → Move c (.packet ip) out { c with state := csNoHandler, reqQueue := rs }
  | dropped {ip : InPac} : ¬NamedType ip.pac.type → csDisconnecting ≤ c.state → Move c (.packet ip) [] c
  | queued {ip : InPac} : ¬NamedType ip.pac.type → c.state < csDisconnecting →
      Move c (.packet ip) (push { c with packetQueue := c.packetQueue ++ [ip] }).1
        (push { c with packetQueue := c.packetQueue ++ [ip] }).2
  | opened {req : Request} {state : ConnectionState} : req.type = rtOpen → state = c.state ∨ state = csConnecting →
      Move c (.request req) []
        { c with handlerId := req.handlerId, state := state, reqQueue := c.reqQueue ++ [received c req] }
  | read {req : Request} : req.type = rtRead → ¬Unreadable c →
      Move c (.request req) (push { c with reqQueue := c.reqQueue ++ [received c req] }).1
        (push { c with reqQueue := c.reqQueue ++ [received c req] }).2
  | answered {req r : Request} {state : ConnectionState} : r.num = req.num → r.type = req.type →
      (r.type = rtRead → r.state ≠ .ok ∧ Unreadable c) →
      state = c.state ∨ c.state < csDisconnecting ∧ state = csDisconnecting →
      Move c (.request req) [r] { c with state := state }
  | tick : Move c .tick (tickRequests c.reqQueue).1.toList { c with reqQueue := (tickRequests c.reqQueue).2 }

/-- Connection `c` moves, and the others stay. -/
def Moved (s : Server) (c : Connection) (act : Act) (s' : Server) : Prop :=
  ∃ out c', Move c act out c' ∧ s'.replied = s.replied ++ out ∧
    s'.connections = Keyed.put Connection.num s.connections c'

/-! ## The functions of a connection -/

theorem push_num (c : Connection) : (push c).2.num = c.num := by
  unfold push
  split <;> rfl

theorem push_id (c : Connection) : (push c).2.id = c.id := by
  unfold push
  split <;> rfl

theorem push_state (c : Connection) : (push c).2.state = c.state := by
  unfold push
  split <;> rfl

theorem pushToClient_push (s : Server) (c : Connection) : (s.pushToClient c).2 = (push c).2 ∧
    (s.pushToClient c).1.replied = s.replied ++ (push c).1 ∧
    (s.pushToClient c).1.connections = s.connections := by
  unfold pushToClient push
  split
  · simp
  · simp

theorem Move.num {act : Act} {out : List Request} (m : Move c act out c') : c'.num = c.num := by
  cases m <;> first | rfl | exact push_num _

theorem Move.id {act : Act} {out : List Request} (m : Move c act out c') : c'.id = c.id := by
  cases m <;> first | rfl | exact push_id _

theorem replyRequest_answers (s : Server) (c : Connection) (state : RequestState) : ∃ out rs,
    Answers state c.reqQueue out rs ∧ (s.replyRequest c rtOpen state).2 = { c with reqQueue := rs } ∧
      (s.replyRequest c rtOpen state).1.replied = s.replied ++ out ∧
      (s.replyRequest c rtOpen state).1.connections = s.connections := by
  unfold replyRequest
  cases h : takeRequest rtOpen c.reqQueue with
  | none => exact ⟨[], c.reqQueue, .inl ⟨h, rfl, rfl⟩, rfl, by simp, rfl⟩
  | some q =>
    obtain ⟨r, rs⟩ := q
    exact ⟨[{ r with state := state }], rs, .inr ⟨r, h, rfl⟩, rfl, rfl, rfl⟩

/-- **What a packet does**: a move, or the connection is destroyed. -/
theorem handleConnectionPacket_moved (env : Env) (d : s.Distinct) (hc : c ∈ s.connections) (ip : InPac) :
    Moved s c (.packet ip) (s.handleConnectionPacket env c ip) ∨
      ip.pac.type = ptDisconnected ∧ (s.handleConnectionPacket env c ip).replied = s.replied ∧
        ∀ b ∈ (s.handleConnectionPacket env c ip).connections, b ∈ s.connections := by
  unfold handleConnectionPacket
  dsimp only
  by_cases h₁ : ip.pac.type = ptConnected
  · obtain ⟨out, rs, ha, h₂, h₃, h₄⟩ := replyRequest_answers (s.release ip) { c with state := csConnected } .ok
    rw [if_pos h₁, h₂]
    refine .inl ⟨out, _, .connected h₁ ha, h₃, ?_⟩
    unfold put
    rw [h₄]
    rfl
  rw [if_neg h₁]
  by_cases h₂ : ip.pac.type = ptDisconnected
  · rw [if_pos h₂]
    have hlt : ¬csDisconnected < csDisconnecting := by decide
    refine .inr ⟨h₂, ?_, fun b hb => ?_⟩
    · simp [destroyConnection, hlt, release]
    · simp only [destroyConnection, hlt, if_false] at hb
      exact (Keyed.mem_remove.1 hb).1
  rw [if_neg h₂]
  by_cases h₃ : ip.pac.type = ptNoHandler
  · obtain ⟨out, rs, ha, h₄, h₅, h₆⟩ := replyRequest_answers s { c with state := csNoHandler } .noHandler
    rw [if_pos h₃, h₄]
    refine .inl ⟨out, _, .noHandler h₃ ha, h₅, ?_⟩
    unfold put
    rw [h₆]
  have hn : ¬NamedType ip.pac.type := by
    rintro (h | h | h)
    · exact h₁ h
    · exact h₂ h
    · exact h₃ h
  rw [if_neg h₃]
  by_cases h₄ : csDisconnecting ≤ c.state
  · rw [if_pos h₄]
    exact .inl ⟨[], c, .dropped hn h₄, by simp [release], (Keyed.put_of_mem d.nodup hc).symm⟩
  · obtain ⟨h₅, h₆, h₇⟩ := pushToClient_push { s with handed := s.handed ++ [(c.num, ip)] }
      { c with packetQueue := c.packetQueue ++ [ip] }
    rw [if_neg h₄, h₅]
    refine .inl ⟨_, _, .queued hn (UInt16.not_le.1 h₄), h₆, ?_⟩
    unfold put
    rw [h₇]

/-- **What a request does.** -/
theorem handleClientRequest_moved (env : Env) (d : s.Distinct) (hc : c ∈ s.connections) (req : Request) :
    Moved s c (.request req) (s.handleClientRequest env c req) := by
  have hself : s.connections = Keyed.put Connection.num s.connections { c with state := c.state } :=
    (Keyed.put_of_mem d.nodup hc).symm
  -- a reply at once, to a request that is not read from
  have hans : ∀ r : Request, r.num = req.num → r.type = req.type → (r.type = rtRead → r.state ≠ .ok ∧ Unreadable c) →
      Moved s c (.request req) (s.reply r) := fun r h₁ h₂ h₃ =>
    ⟨[r], _, .answered h₁ h₂ h₃ (.inl rfl), rfl, hself⟩
  unfold handleClientRequest
  dsimp only
  by_cases h₁ : req.type = rtOpen
  · obtain ⟨os, state, he, ho⟩ := cnnConnect_eq env s
      { c with handlerId := req.handlerId, reqQueue := c.reqQueue ++ [received c req] }
    rw [if_pos h₁]
    refine ⟨[], _, .opened h₁ (ho.imp And.right And.right), ?_, ?_⟩
    · exact (congrArg replied (congrArg Prod.fst he)).trans (List.append_nil _).symm
    · have := congrArg (fun r => (r.1.put r.2).connections) he
      exact this
  rw [if_neg h₁]
  have h₃ : req.type = rtClose → req.type ≠ rtRead := fun h => h ▸ by decide
  by_cases h₂ : req.type = rtClose
  · obtain ⟨n, os, state, he, ho⟩ := disconnect_eq env s c
    rw [if_pos h₂, he]
    refine ⟨[received c req], _, .answered (r := received c req) rfl rfl (fun h => ?_)
      (ho.imp And.right fun h => ⟨h.1, h.2.2⟩), rfl, rfl⟩
    exact absurd h (h₃ h₂)
  rw [if_neg h₂]
  clear h₃
  by_cases h₃ : req.type = rtRead
  · rw [if_pos h₃]
    by_cases h₄ : c.state = csDisconnecting ∨ c.state = csDisconnected
    · rw [if_pos h₄]
      exact hans _ rfl rfl fun _ => ⟨by simp, h₄.imp_right .inl⟩
    rw [if_neg h₄]
    by_cases h₅ : c.state = csNoHandler
    · rw [if_pos h₅]
      exact hans _ rfl rfl fun _ => ⟨by simp, .inr (.inr h₅)⟩
    rw [if_neg h₅]
    obtain ⟨h₆, h₇, h₈⟩ := pushToClient_push s { c with reqQueue := c.reqQueue ++ [received c req] }
    have h₉ : ¬Unreadable c := by
      rintro (h | h | h)
      · exact h₄ (.inl h)
      · exact h₄ (.inr h)
      · exact h₅ h
    refine ⟨_, _, .read h₃ h₉, h₇, ?_⟩
    have := congrArg (fun c => Keyed.put Connection.num s.connections c) h₆
    rw [← this, ← h₈]
    rfl
  rw [if_neg h₃]
  by_cases h₄ : req.type = rtWrite
  · rw [if_pos h₄]
    by_cases h₅ : c.state = csDisconnecting ∨ c.state = csDisconnected
    · rw [if_pos h₅]
      exact hans _ rfl rfl fun h => absurd h h₃
    rw [if_neg h₅]
    by_cases h₆ : c.state = csNoHandler
    · rw [if_pos h₆]
      exact hans _ rfl rfl fun h => absurd h h₃
    rw [if_neg h₆]
    obtain ⟨os, hs, -⟩ := send_eq env s ((sizeofPacket + req.length.toNat) % 65536)
      ⟨some c.num, c.id, ptData, req.data.take req.length.toNat⟩
    unfold pushToRemote
    dsimp only
    rw [hs]
    refine ⟨[_], _, .answered ?_ ?_ (fun h => absurd h ?_) (.inl rfl), rfl, hself⟩
    · split <;> rfl
    · split <;> rfl
    · split <;> exact h₃
  · rw [if_neg h₄]
    exact hans _ rfl rfl fun h => absurd h h₃

theorem cnnCheckRequestTimeouts_moved (s : Server) (c : Connection) :
    Moved s c .tick (s.cnnCheckRequestTimeouts c) := ⟨_, _, .tick, rfl, rfl⟩

/-- **A request is refused, or it comes to its connection**, which may be a new one. -/
theorem receiveRequest_moved (d : s.Distinct) (h : s.receiveRequest env req = some s') :
    (∃ t r, Quiet s t ∧ s' = t.reply r ∧ (r.type = rtRead → r.state ≠ .ok)) ∨
      (∃ c r, s.target req.connId = some c ∧ r.type = req.type ∧ Moved s c (.request r) s') ∨
      ∃ state r, Moved (s.withNew state) (s.newConnection state) (.request r) s' := by
  unfold receiveRequest at h
  split at h
  · unfold handleClientControlMessage createConnection at h
    dsimp only at h
    split at h
    · cases hc : env.connection s.creations with
      | none =>
        rw [hc] at h
        cases h
      | some state =>
        rw [hc] at h
        cases h
        have hd := ((accounted_withNew d state).distinct : (s.withNew state).Distinct)
        exact .inr (.inr ⟨state, _, handleClientRequest_moved env hd
          (List.mem_append_right _ (List.mem_singleton.2 rfl)) { req with state := .ok }⟩)
    split at h
    · next hq =>
      cases h
      refine .inl ⟨_, _, quiet_of_quit (.inr rfl), rfl, fun hr => ?_⟩
      exact absurd (hq.symm.trans hr) (by decide)
    split at h
    · next hl =>
      cases h
      refine .inl ⟨_, _, .refl s, rfl, fun hr => ?_⟩
      exact absurd (hl.symm.trans hr) (by decide)
    · cases h
      exact .inl ⟨_, _, .refl s, rfl, fun _ => by simp⟩
  · next hd =>
    cases hf : s.findConnection req.connId with
    | none =>
      rw [hf] at h
      cases h
      exact .inl ⟨_, _, .refl s, rfl, fun _ => by simp⟩
    | some c =>
      rw [hf] at h
      cases h
      have ht : s.target req.connId = some c := by rw [target, if_neg hd, hf]
      exact .inr (.inl ⟨c, req, ht, rfl, handleClientRequest_moved env d (mem_of_findConnection hf) req⟩)

theorem Moved.congr {act : Act} (h : Moved t c act s') (hc : t.connections = s.connections)
    (hr : t.replied = s.replied) : Moved s c act s' := by
  obtain ⟨out, c', m, h₁, h₂⟩ := h
  rw [hr] at h₁
  rw [hc] at h₂
  exact ⟨out, c', m, h₁, h₂⟩

/-- **A packet comes to its connection**, if it is for one that there is. -/
theorem handlePacket_moved (env : Env) (d : s.Distinct) (ip : InPac) :
    (s.target ip.pac.connId = none ∧ (s.handlePacket env ip).connections = s.connections ∧
      (s.handlePacket env ip).replied = s.replied) ∨
    ∃ c, s.target ip.pac.connId = some c ∧ (Moved s c (.packet ip) (s.handlePacket env ip) ∨
      ip.pac.type = ptDisconnected ∧ (s.handlePacket env ip).replied = s.replied ∧
        ∀ b ∈ (s.handlePacket env ip).connections, b ∈ s.connections) := by
  have hn := quiet_noteId env (s.hear ip) ip
  have hc : ((s.hear ip).noteId env ip).connections = s.connections := hn.connections
  have hr : ((s.hear ip).noteId env ip).replied = s.replied := hn.replied
  have hd : ((s.hear ip).noteId env ip).Distinct := d.congr hc (Nat.le_of_eq hn.creations.symm)
  rw [handlePacket_eq, ← target_congr hc]
  generalize (s.hear ip).noteId env ip = t at hc hr hd ⊢
  unfold dispatch
  by_cases h₀ : ip.pac.connId = defaultConnection
  · obtain ⟨t', hq, he⟩ := handleControlPacket_eq env t ip
    rw [if_pos h₀, target, if_pos h₀, he]
    exact .inl ⟨rfl, hq.connections.trans hc, hq.replied.trans hr⟩
  · rw [if_neg h₀, target, if_neg h₀]
    cases hf : t.findConnection ip.pac.connId with
    | none =>
      have hq := quiet_send env t sizeofPacket ⟨none, ip.pac.connId, ptNoConnection, []⟩ rfl
      exact .inl ⟨rfl, hq.connections.trans hc, hq.replied.trans hr⟩
    | some c =>
      refine .inr ⟨c, rfl, ?_⟩
      rcases handleConnectionPacket_moved env hd (mem_of_findConnection hf) ip with hm | ⟨h₁, h₂, h₃⟩
      · exact .inl (hm.congr hc hr)
      · exact .inr ⟨h₁, h₂.trans hr, fun b hb => hc ▸ h₃ b hb⟩

/-- The same where the connection is known. -/
theorem handlePacket_moved_of (env : Env) (d : s.Distinct) {ip : InPac} (hc : s.target ip.pac.connId = some c) :
    Moved s c (.packet ip) (s.handlePacket env ip) ∨ ip.pac.type = ptDisconnected := by
  rcases handlePacket_moved env d ip with ⟨hn, -⟩ | ⟨b, hb, h⟩
  · cases hn.symm.trans hc
  · obtain rfl : b = c := Option.some.inj (hb.symm.trans hc)
    exact h.imp_right fun h => h.1

/-! ## Steps -/

/-- Something holds of every connection, and something of every request that was replied to. -/
structure Holds (I : Connection → Prop) (R : Request → Prop) (s : Server) : Prop where
  connection : ∀ c ∈ s.connections, I c
  replied : ∀ r ∈ s.replied, R r

/-- What can come to connection `c` with this event. -/
def Comes (s : Server) (e : Event) (c : Connection) : Act → Prop
  | .packet ip => ∃ seq pac, e = .packet seq pac ∧ ip = ⟨s.dequeued, seq, pac⟩ ∧ s.target pac.connId = some c
  | .request _ => True
  | .tick => True

variable {I : Connection → Prop} {R : Request → Prop}

theorem Holds.of_eq (h : Holds I R s) (hc : s'.connections = s.connections) (hr : s'.replied = s.replied) :
    Holds I R s' := ⟨hc ▸ h.connection, hr ▸ h.replied⟩

theorem Holds.quiet (h : Holds I R s) (hq : Quiet s s') : Holds I R s' := h.of_eq hq.connections hq.replied

theorem Holds.reply (h : Holds I R s) {r : Request} (hr : R r) : Holds I R (s.reply r) := by
  refine ⟨h.connection, fun q hq => ?_⟩
  rcases List.mem_append.1 hq with hq | hq
  · exact h.replied q hq
  · rw [List.mem_singleton.1 hq]
    exact hr

/-- **A move keeps what it keeps of its connection.** -/
theorem Holds.moved {act : Act} (h : Holds I R s) (hm : Moved s c act s')
    (hmove : ∀ out c', Move c act out c' → I c' ∧ ∀ r ∈ out, R r) : Holds I R s' := by
  obtain ⟨out, c', m, hr, hc⟩ := hm
  obtain ⟨hI, hR⟩ := hmove out c' m
  refine ⟨fun b hb => ?_, fun r hq => ?_⟩
  · rw [hc] at hb
    rcases Keyed.mem_put hb with rfl | ⟨hb, -⟩
    · exact hI
    · exact h.connection b hb
  · rw [hr] at hq
    rcases List.mem_append.1 hq with hq | hq
    · exact h.replied r hq
    · exact hR r hq

theorem Holds.checkRequestTimeouts (h : Holds I R s) (d : s.Distinct)
    (hmove : ∀ c out c', I c → Move c .tick out c' → I c' ∧ ∀ r ∈ out, R r) : Holds I R s.checkRequestTimeouts := by
  apply Keyed.foldl_inv connections (Holds I R) _ d.nodup (fun _ hb => hb) h
  intro t c ht hc
  refine ⟨?_, fun b hb hne => Keyed.mem_put_of_ne hb hne⟩
  exact ht.moved (cnnCheckRequestTimeouts_moved t c) fun out c' m => hmove c out c' (ht.connection c hc) m

/-- **What every move keeps is kept by every step.** -/
theorem Holds.step (h : Holds I R s) (d : s.Distinct) (hnew : ∀ c, c.packetQueue = [] → c.reqQueue = [] → I c)
    (hplain : ∀ r, (r.type = rtRead → r.state ≠ .ok) → R r)
    (hmove : ∀ c act out c', I c → Comes s e c act → Move c act out c' → I c' ∧ ∀ r ∈ out, R r)
    (he : Server.step env s e = some s') : Holds I R s' := by
  cases e with
  | run ok =>
    cases he
    exact h.quiet (quiet_runStep env s ok)
  | wake brk =>
    cases he
    split
    · exact h.of_eq rfl rfl
    · exact h.of_eq rfl rfl
  | timer fired =>
    cases he
    have ht : Holds I R (if fired then s.handleTimer env else s) := by
      split
      · unfold handleTimer
        dsimp only
        split
        · exact h.of_eq rfl rfl
        · have hq := (quiet_checkPing s).trans (quiet_nextPing env s.checkPing)
          have hd := (hq.accounted d).distinct
          exact ((h.quiet hq).checkRequestTimeouts hd fun c out c' hI m => hmove c .tick out c' hI trivial m).of_eq rfl rfl
        · exact h.of_eq rfl rfl
        · exact h.of_eq rfl rfl
      · exact h
    exact ht.of_eq rfl rfl
  | request req =>
    have h' : Holds I R { s with taken := s.taken + 1 } := h.of_eq rfl rfl
    have d' : ({ s with taken := s.taken + 1 } : Server).Distinct := d.congr rfl (Nat.le_refl _)
    obtain ⟨t, r, hq, rfl, hr⟩ | ⟨c, r, hc, -, hm⟩ | ⟨state, r, hm⟩ := receiveRequest_moved d' he
    · exact (h'.quiet hq).reply (hplain r hr)
    · exact h'.moved hm fun out c' m =>
        hmove c (.request r) out c' (h'.connection c (mem_of_target hc)) trivial m
    · refine Holds.moved (s := withNew _ state) ⟨fun b hb => ?_, h.replied⟩ hm fun out c' m => ?_
      · rcases List.mem_append.1 hb with hb | hb
        · exact h.connection b hb
        · rw [List.mem_singleton.1 hb]
          exact hnew _ rfl rfl
      · exact hmove _ (.request r) out c' (hnew _ rfl rfl) trivial m
  | requestsDone =>
    cases he
    exact h.of_eq rfl rfl
  | packet seq pac =>
    cases he
    have d' : ({ s with dequeued := s.dequeued + 1 } : Server).Distinct := d.congr rfl (Nat.le_refl _)
    rcases handlePacket_moved env d' ⟨s.dequeued, seq, pac⟩ with ⟨-, h₁, h₂⟩ | ⟨c, hc, hm | ⟨-, h₂, h₁⟩⟩
    · exact h.of_eq h₁ h₂
    · have h' : Holds I R { s with dequeued := s.dequeued + 1 } := h.of_eq rfl rfl
      exact h'.moved hm fun out c' m =>
        hmove c (.packet ⟨s.dequeued, seq, pac⟩) out c' (h'.connection c (mem_of_target hc)) ⟨seq, pac, rfl, rfl, hc⟩ m
    · exact ⟨fun b hb => h.connection b (h₁ b hb), fun r hr => h.replied r (h₂ ▸ hr)⟩
  | packetsDone =>
    cases he
    exact h.of_eq rfl rfl

end AmiPiBorg.Server
