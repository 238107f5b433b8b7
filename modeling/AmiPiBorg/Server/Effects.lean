import AmiPiBorg.Server.Defs

/-!
# What the functions of the server change

A packet goes out by `send`, which only adds to `out` (`send_eq`); what a connection sends changes its state, too
(`cnnConnect_eq`, `disconnect_eq`). The functions of the server itself leave the connections alone (`Quiet`), and those
of a connection leave the state of the server and its timers alone (`Steady`).
-/

set_option autoImplicit false

namespace AmiPiBorg.Server

open ProgLib

variable {env : Env} {s s' t : Server} {c c' : Connection} {ip : InPac} {req : Request}

/-! ## Sending -/

/-- What sending a packet changes. -/
theorem send_eq (env : Env) (s : Server) (length : Nat) (o : OutPac) :
    ∃ os, (s.send env length o).1 = { s with allocs := s.allocs + 1, out := s.out ++ os } ∧
      (os = [] ∧ (s.send env length o).2 = false ∨ os = [o] ∧ (s.send env length o).2 = true) := by
  unfold send
  split
  · exact ⟨[o], rfl, .inr ⟨rfl, rfl⟩⟩
  · refine ⟨[], ?_, .inl ⟨rfl, rfl⟩⟩
    rw [List.append_nil]

/-- A packet of a possible length is sent if there is one. -/
theorem send_of_packet {length : Nat} (hl : sizeofPacket ≤ length) (hm : length ≤ bufferSize)
    (hp : env.packet s.allocs = true) (o : OutPac) :
    s.send env length o = ({ s with allocs := s.allocs + 1, out := s.out ++ [o] }, true) := if_pos ⟨hl, hm, hp⟩

/-- What a connection sends, `send` with its result, and what it is then. -/
theorem cnn_send_eq (env : Env) (s : Server) (c : Connection) (length : Nat) (o : OutPac) (state : ConnectionState) :
    ∃ os state', ((s.send env length o).1, if (s.send env length o).2 then { c with state := state } else c) =
        ({ s with allocs := s.allocs + 1, out := s.out ++ os }, { c with state := state' }) ∧
      (os = [] ∧ state' = c.state ∨ os = [o] ∧ state' = state) := by
  obtain ⟨os, h, ⟨hos, hb⟩ | ⟨hos, hb⟩⟩ := send_eq env s length o
  · refine ⟨os, c.state, ?_, .inl ⟨hos, rfl⟩⟩
    rw [h, hb]
    rfl
  · refine ⟨os, state, ?_, .inr ⟨hos, rfl⟩⟩
    rw [h, hb]
    rfl

/-- What `APB_CnnConnect` does. -/
theorem cnnConnect_eq (env : Env) (s : Server) (c : Connection) : ∃ os state,
    s.cnnConnect env c = ({ s with allocs := s.allocs + 1, out := s.out ++ os }, { c with state := state }) ∧
      (os = [] ∧ state = c.state ∨
        os = [{ cnn := some c.num, connId := c.id, type := ptConnect, data := be16 c.handlerId }] ∧
          state = csConnecting) :=
  cnn_send_eq env s c 16 _ csConnecting

/-- What `APB_CnnDisconnect` does. -/
theorem cnnDisconnect_eq (env : Env) (s : Server) (c : Connection) : ∃ os state,
    s.cnnDisconnect env c = ({ s with allocs := s.allocs + 1, out := s.out ++ os }, { c with state := state }) ∧
      (os = [] ∧ state = c.state ∨
        os = [{ cnn := some c.num, connId := c.id, type := ptDisconnect, data := [] }] ∧ state = csDisconnecting) :=
  cnn_send_eq env s c sizeofPacket _ csDisconnecting

/-- What `APB_CnnDisconnect` does, where it is only called in time. -/
theorem disconnect_eq (env : Env) (s : Server) (c : Connection) : ∃ n os state,
    (if c.state < csDisconnecting then s.cnnDisconnect env c else (s, c)) =
      ({ s with allocs := n, out := s.out ++ os }, { c with state := state }) ∧
    (os = [] ∧ state = c.state ∨ c.state < csDisconnecting ∧
      os = [{ cnn := some c.num, connId := c.id, type := ptDisconnect, data := [] }] ∧ state = csDisconnecting) := by
  split
  · next hc =>
    obtain ⟨os, state, h, hos⟩ := cnnDisconnect_eq env s c
    exact ⟨_, os, state, h, hos.imp_right fun ho => ⟨hc, ho⟩⟩
  · refine ⟨s.allocs, [], c.state, ?_, .inl ⟨rfl, rfl⟩⟩
    rw [List.append_nil]

/-! ## The server -/

/-- The connections stay as they are, and send nothing. -/
structure Quiet (s s' : Server) : Prop where
  connections : s'.connections = s.connections
  creations : s'.creations = s.creations
  taken : s'.taken = s.taken
  replied : s'.replied = s.replied
  dequeued : s'.dequeued = s.dequeued
  released : s'.released = s.released
  handed : s'.handed = s.handed
  heard : s'.heard = s.heard
  out : ∃ os, s'.out = s.out ++ os ∧ ∀ o ∈ os, o.cnn = none

theorem Quiet.refl (s : Server) : Quiet s s :=
  ⟨rfl, rfl, rfl, rfl, rfl, rfl, rfl, rfl, [], (List.append_nil _).symm, fun _ h => by cases h⟩

/-- Only what has nothing to do with connections changes. -/
theorem Quiet.of_eq (h₁ : s'.connections = s.connections) (h₂ : s'.creations = s.creations)
    (h₃ : s'.taken = s.taken) (h₄ : s'.replied = s.replied) (h₅ : s'.dequeued = s.dequeued)
    (h₆ : s'.released = s.released) (h₇ : s'.handed = s.handed) (h₈ : s'.heard = s.heard) (h₉ : s'.out = s.out) :
    Quiet s s' :=
  ⟨h₁, h₂, h₃, h₄, h₅, h₆, h₇, h₈, [], h₉.trans (List.append_nil _).symm, fun _ h => by cases h⟩

theorem Quiet.trans (h : Quiet s s') (h' : Quiet s' t) : Quiet s t := by
  obtain ⟨os, ho, hos⟩ := h.out
  obtain ⟨os', ho', hos'⟩ := h'.out
  refine ⟨h'.connections.trans h.connections, h'.creations.trans h.creations, h'.taken.trans h.taken,
    h'.replied.trans h.replied, h'.dequeued.trans h.dequeued, h'.released.trans h.released, h'.handed.trans h.handed,
    h'.heard.trans h.heard, os ++ os', ?_, fun o hm => (List.mem_append.1 hm).elim (hos o) (hos' o)⟩
  rw [ho', ho, List.append_assoc]

theorem quiet_send (env : Env) (s : Server) (length : Nat) (o : OutPac) (ho : o.cnn = none) :
    Quiet s (s.send env length o).1 := by
  obtain ⟨os, h, hos⟩ := send_eq env s length o
  rw [h]
  refine ⟨rfl, rfl, rfl, rfl, rfl, rfl, rfl, rfl, os, rfl, fun o' hm => ?_⟩
  obtain ⟨rfl, -⟩ | ⟨rfl, -⟩ := hos
  · cases hm
  · rw [List.mem_singleton.1 hm, ho]

theorem quiet_sendPing (env : Env) (s : Server) : Quiet s (s.sendPing env) := by
  have h := quiet_send env s sizeofPacket ⟨none, defaultConnection, ptPing, []⟩ rfl
  unfold sendPing
  dsimp only
  split
  · exact h.trans (.of_eq rfl rfl rfl rfl rfl rfl rfl rfl rfl)
  · exact h

theorem quiet_requestResends (env : Env) : ∀ (n : Nat) (packId : UInt16) (s : Server),
    Quiet s (requestResends env n packId s)
  | 0, _, s => .refl s
  | n + 1, packId, s => by
    have h := quiet_send env s 16 ⟨none, defaultConnection, ptResend, be16 packId⟩ rfl
    unfold requestResends
    dsimp only
    split
    · exact h.trans (quiet_requestResends env n (packId + 1) _)
    · exact h

theorem quiet_checkPing (s : Server) : Quiet s s.checkPing := by
  unfold checkPing
  dsimp only
  split
  · split
    · exact .of_eq rfl rfl rfl rfl rfl rfl rfl rfl rfl
    · exact .of_eq rfl rfl rfl rfl rfl rfl rfl rfl rfl
  · split
    · exact .of_eq rfl rfl rfl rfl rfl rfl rfl rfl rfl
    · exact .refl s

theorem quiet_nextPing (env : Env) (s : Server) : Quiet s (s.nextPing env) := by
  unfold nextPing
  split
  · exact quiet_sendPing env s
  · split
    · exact .of_eq rfl rfl rfl rfl rfl rfl rfl rfl rfl
    · exact .refl s

/-- `APB_SendInit` sends one packet, and the server waits or stops. -/
theorem sendInit_eq (env : Env) (s : Server) : ∃ (o : OutPac) (state : ServerState) (phase : Phase),
    o.cnn = none ∧ o.type = ptInit ∧ s.sendInit env = { (s.send env 18 o).1 with state := state, phase := phase } ∧
      (state = .waitForConnect ∨ state = .stopping) := by
  unfold sendInit
  dsimp only
  split
  · exact ⟨_, .waitForConnect, .wait, rfl, rfl, rfl, .inl rfl⟩
  · exact ⟨_, .stopping, _, rfl, rfl, rfl, .inr rfl⟩

/-- `APB_SendShutdown` does so as well, and it waits in the same state. -/
theorem sendShutdown_eq (env : Env) (s : Server) : ∃ (o : OutPac) (state : ServerState) (phase : Phase),
    o.cnn = none ∧ o.type = ptShutdown ∧
      s.sendShutdown env = { (s.send env sizeofPacket o).1 with state := state, phase := phase } ∧
      (state = s.state ∨ state = .stopping) := by
  have hs : ∀ o, (s.send env sizeofPacket o).1.state = s.state := by
    intro o
    obtain ⟨os, h, -⟩ := send_eq env s sizeofPacket o
    rw [h]
  unfold sendShutdown
  dsimp only
  split
  · exact ⟨_, _, .wait, rfl, rfl, rfl, .inl (hs _)⟩
  · exact ⟨_, .stopping, _, rfl, rfl, rfl, .inr rfl⟩

theorem quiet_runStep (env : Env) (s : Server) (ok : Bool) : Quiet s (s.runStep env ok) := by
  unfold runStep
  split
  case h_4 =>
    obtain ⟨o, state, phase, ho, -, h, -⟩ := sendInit_eq env s
    rw [h]
    exact (quiet_send env s 18 o ho).trans (.of_eq rfl rfl rfl rfl rfl rfl rfl rfl rfl)
  case h_9 =>
    obtain ⟨o, state, phase, ho, -, h, -⟩ := sendShutdown_eq env s
    rw [h]
    exact (quiet_send env s sizeofPacket o ho).trans (.of_eq rfl rfl rfl rfl rfl rfl rfl rfl rfl)
  all_goals exact .of_eq rfl rfl rfl rfl rfl rfl rfl rfl rfl

/-! ## Packets -/

/-- A packet is received: the start of `APB_HandlePacket`. -/
def hear (s : Server) (ip : InPac) : Server :=
  { s with pingSendTicks := pingTicks, pingTimeoutTicks := 0,
           heard := s.heard ++ [(ip.seq, decide (Resent ip))] }

/-- Lines 490 to 500 of `APB_HandlePacket`: what is missing before the packet is asked for. -/
def noteId (env : Env) (s : Server) (ip : InPac) : Server :=
  if Resent ip then s
  else
    let s := if (s.lastInPackId.toNat : Int) < ip.pac.packId.toNat - 1 then s.requestResend env ip.pac.packId else s
    { s with lastInPackId := ip.pac.packId }

/-- The rest of `APB_HandlePacket`. -/
def dispatch (env : Env) (s : Server) (ip : InPac) : Server :=
  if ip.pac.connId = defaultConnection then s.handleControlPacket env ip
  else match s.findConnection ip.pac.connId with
    | none => (s.sendError env ip.pac.connId ptNoConnection).release ip
    | some c => s.handleConnectionPacket env c ip

theorem handlePacket_eq (env : Env) (s : Server) (ip : InPac) :
    s.handlePacket env ip = ((s.hear ip).noteId env ip).dispatch env ip := rfl

theorem quiet_noteId (env : Env) (s : Server) (ip : InPac) : Quiet s (s.noteId env ip) := by
  unfold noteId
  dsimp only
  split
  · exact .refl s
  · split
    · exact (quiet_requestResends env _ _ s).trans (.of_eq rfl rfl rfl rfl rfl rfl rfl rfl rfl)
    · exact .of_eq rfl rfl rfl rfl rfl rfl rfl rfl rfl

/-- A control packet is released, and leaves the connections alone. -/
theorem handleControlPacket_eq (env : Env) (s : Server) (ip : InPac) :
    ∃ t, Quiet s t ∧ s.handleControlPacket env ip = t.release ip := by
  refine ⟨_, ?_, rfl⟩
  split
  · refine Quiet.trans ?_ (quiet_sendPing env { s with state := .connected })
    exact .of_eq rfl rfl rfl rfl rfl rfl rfl rfl rfl
  · split
    · exact .of_eq rfl rfl rfl rfl rfl rfl rfl rfl rfl
    · split
      · exact .of_eq rfl rfl rfl rfl rfl rfl rfl rfl rfl
      · exact .refl s

/-- The connection that a packet is for, if it is for one that there is. -/
def target (s : Server) (connId : UInt16) : Option Connection :=
  if connId = defaultConnection then none else s.findConnection connId

theorem target_congr (h : s'.connections = s.connections) (connId : UInt16) : s'.target connId = s.target connId := by
  unfold target findConnection
  rw [h]

/-! ## Requests -/

/-- **What a request does to a connection.** It waits there for its answer, or it is replied to at once. -/
theorem handleClientRequest_cases (env : Env) (s : Server) (c : Connection) (req : Request) :
    ∃ r, r.num = req.num ∧
      (req.type = rtOpen ∧ s.handleClientRequest env c req =
          (s.cnnConnect env { c with handlerId := req.handlerId, reqQueue := c.reqQueue ++ [r] }).1.put
            (s.cnnConnect env { c with handlerId := req.handlerId, reqQueue := c.reqQueue ++ [r] }).2 ∨
        req.type = rtClose ∧ s.handleClientRequest env c req =
          ((if c.state < csDisconnecting then s.cnnDisconnect env c else (s, c)).1.put
            (if c.state < csDisconnecting then s.cnnDisconnect env c else (s, c)).2).reply r ∨
        req.type = rtRead ∧ s.handleClientRequest env c req =
          (s.pushToClient { c with reqQueue := c.reqQueue ++ [r] }).1.put
            (s.pushToClient { c with reqQueue := c.reqQueue ++ [r] }).2 ∨
        (req.type = rtWrite ∧ c.state ≠ csDisconnecting ∧ c.state ≠ csDisconnected ∧ c.state ≠ csNoHandler ∧
          s.handleClientRequest env c req =
            (s.send env ((sizeofPacket + req.length.toNat) % 65536)
              ⟨some c.num, c.id, ptData, req.data.take req.length.toNat⟩).1.reply r) ∨
        s.handleClientRequest env c req = s.reply r) := by
  unfold handleClientRequest
  dsimp only
  split
  · next h =>
    refine ⟨_, ?_, .inl ⟨h, rfl⟩⟩
    rfl
  split
  · next h =>
    refine ⟨_, ?_, .inr (.inl ⟨h, rfl⟩)⟩
    rfl
  split
  · next h =>
    split
    · refine ⟨_, ?_, .inr (.inr (.inr (.inr rfl)))⟩
      rfl
    · split
      · refine ⟨_, ?_, .inr (.inr (.inr (.inr rfl)))⟩
        rfl
      · refine ⟨_, ?_, .inr (.inr (.inl ⟨h, rfl⟩))⟩
        rfl
  split
  · next h =>
    split
    · refine ⟨_, ?_, .inr (.inr (.inr (.inr rfl)))⟩
      rfl
    · next h₁ =>
      split
      · refine ⟨_, ?_, .inr (.inr (.inr (.inr rfl)))⟩
        rfl
      · next h₂ =>
        refine ⟨_, ?_, .inr (.inr (.inr (.inl ⟨h, fun e => h₁ (.inl e), fun e => h₁ (.inr e), h₂, rfl⟩)))⟩
        unfold pushToRemote
        dsimp only
        split <;> rfl
  · refine ⟨_, ?_, .inr (.inr (.inr (.inr rfl)))⟩
    rfl

/-- The connection for a new `APB_RT_OPEN`. -/
def newConnection (s : Server) (state : ConnectionState) : Connection :=
  { num := s.creations, id := s.nextConnId, handlerId := 0, state := state, packetQueue := [], reqQueue := [] }

/-- The server with that connection. -/
def withNew (s : Server) (state : ConnectionState) : Server :=
  { s with nextConnId := s.nextConnId + 1, creations := s.creations + 1,
           connections := s.connections ++ [s.newConnection state] }

/-- **What a request does**: it is replied to at once, or it goes to its connection, or to a new one. -/
theorem receiveRequest_cases (h : s.receiveRequest env req = some s') : ∃ r, r.num = req.num ∧
    ((∃ t, (t = s ∨ t = { s with state := .disconnected, quit := true }) ∧ s' = t.reply r) ∨
      (∃ c, s.target req.connId = some c ∧ s' = s.handleClientRequest env c r ∧ r.type = req.type) ∨
      req.connId = defaultConnection ∧ req.type = rtOpen ∧ ∃ state, env.connection s.creations = some state ∧
        s' = (s.withNew state).handleClientRequest env (s.newConnection state) r ∧ r.type = req.type) := by
  unfold receiveRequest at h
  split at h
  · next hd =>
    unfold handleClientControlMessage createConnection at h
    dsimp only at h
    split at h
    · next ho =>
      cases hc : env.connection s.creations with
      | none =>
        rw [hc] at h
        cases h
      | some state =>
        rw [hc] at h
        cases h
        exact ⟨{ req with state := .ok }, rfl, .inr (.inr ⟨hd, ho, state, rfl, rfl, rfl⟩)⟩
    split at h
    · cases h
      exact ⟨{ req with state := .ok }, rfl, .inl ⟨{ s with state := .disconnected, quit := true }, .inr rfl, rfl⟩⟩
    split at h
    · cases h
      exact ⟨{ req with state := .ok }, rfl, .inl ⟨s, .inl rfl, rfl⟩⟩
    · cases h
      exact ⟨{ req with state := .failed }, rfl, .inl ⟨s, .inl rfl, rfl⟩⟩
  · next hd =>
    cases hf : s.findConnection req.connId with
    | none =>
      rw [hf] at h
      cases h
      exact ⟨{ req with state := .noConnection }, rfl, .inl ⟨s, .inl rfl, rfl⟩⟩
    | some c =>
      rw [hf] at h
      cases h
      refine ⟨req, rfl, .inr (.inl ⟨c, ?_, rfl, rfl⟩)⟩
      rw [target, if_neg hd, hf]

theorem quiet_of_quit (h : t = s ∨ t = { s with state := .disconnected, quit := true }) : Quiet s t := by
  obtain rfl | rfl := h
  · exact .refl _
  · exact .of_eq rfl rfl rfl rfl rfl rfl rfl rfl rfl

/-! ## Connections -/

/-- The state of the server and its timers stay as they are. -/
structure Steady (s s' : Server) : Prop where
  state : s'.state = s.state
  pingSendTicks : s'.pingSendTicks = s.pingSendTicks
  missedPingCount : s'.missedPingCount = s.missedPingCount
  pingTimeoutTicks : s'.pingTimeoutTicks = s.pingTimeoutTicks
  timerOn : s'.timerOn = s.timerOn
  phase : s'.phase = s.phase
  quit : s'.quit = s.quit

theorem Steady.refl (s : Server) : Steady s s := ⟨rfl, rfl, rfl, rfl, rfl, rfl, rfl⟩

theorem Steady.trans (h : Steady s s') (h' : Steady s' t) : Steady s t :=
  ⟨h'.state.trans h.state, h'.pingSendTicks.trans h.pingSendTicks, h'.missedPingCount.trans h.missedPingCount,
    h'.pingTimeoutTicks.trans h.pingTimeoutTicks, h'.timerOn.trans h.timerOn, h'.phase.trans h.phase,
    h'.quit.trans h.quit⟩

theorem Steady.put (h : Steady s s') (c : Connection) : Steady s (s'.put c) :=
  h.trans ⟨rfl, rfl, rfl, rfl, rfl, rfl, rfl⟩

theorem Steady.reply (h : Steady s s') (req : Request) : Steady s (s'.reply req) :=
  h.trans ⟨rfl, rfl, rfl, rfl, rfl, rfl, rfl⟩

theorem steady_release (s : Server) (ip : InPac) : Steady s (s.release ip) := ⟨rfl, rfl, rfl, rfl, rfl, rfl, rfl⟩

theorem steady_send (env : Env) (s : Server) (length : Nat) (o : OutPac) : Steady s (s.send env length o).1 := by
  obtain ⟨os, h, -⟩ := send_eq env s length o
  rw [h]
  exact ⟨rfl, rfl, rfl, rfl, rfl, rfl, rfl⟩

theorem steady_pushToClient (s : Server) (c : Connection) : Steady s (s.pushToClient c).1 := by
  unfold pushToClient
  split
  · exact .refl s
  · exact ⟨rfl, rfl, rfl, rfl, rfl, rfl, rfl⟩

theorem steady_replyRequest (s : Server) (c : Connection) (type : UInt16) (state : RequestState) :
    Steady s (s.replyRequest c type state).1 := by
  unfold replyRequest
  split
  · exact .refl s
  · exact ⟨rfl, rfl, rfl, rfl, rfl, rfl, rfl⟩

theorem steady_destroyConnection (env : Env) (s : Server) (c : Connection) : Steady s (s.destroyConnection env c) := by
  obtain ⟨n, os, state, h, -⟩ := disconnect_eq env s c
  unfold destroyConnection
  rw [h]
  exact ⟨rfl, rfl, rfl, rfl, rfl, rfl, rfl⟩

/-- **A packet for a connection** leaves the server steady. -/
theorem steady_handleConnectionPacket (env : Env) (s : Server) (c : Connection) (ip : InPac) :
    Steady s (s.handleConnectionPacket env c ip) := by
  unfold handleConnectionPacket
  dsimp only
  split
  · exact ((steady_release s ip).trans (steady_replyRequest _ _ rtOpen .ok)).put _
  split
  · exact (steady_release s ip).trans (steady_destroyConnection env _ _)
  split
  · exact (steady_replyRequest s _ rtOpen .noHandler).put _
  split
  · exact steady_release s ip
  · have h : Steady s { s with handed := s.handed ++ [(c.num, ip)] } := ⟨rfl, rfl, rfl, rfl, rfl, rfl, rfl⟩
    exact (h.trans (steady_pushToClient _ _)).put _

/-- **A request for a connection** leaves the server steady. -/
theorem steady_handleClientRequest (env : Env) (s : Server) (c : Connection) (req : Request) :
    Steady s (s.handleClientRequest env c req) := by
  obtain ⟨r, -, ⟨-, h⟩ | ⟨-, h⟩ | ⟨-, h⟩ | ⟨-, -, -, -, h⟩ | h⟩ := handleClientRequest_cases env s c req
  · obtain ⟨os, state, he, -⟩ :=
      cnnConnect_eq env s { c with handlerId := req.handlerId, reqQueue := c.reqQueue ++ [r] }
    rw [h, he]
    exact ⟨rfl, rfl, rfl, rfl, rfl, rfl, rfl⟩
  · obtain ⟨n, os, state, he, -⟩ := disconnect_eq env s c
    rw [h, he]
    exact ⟨rfl, rfl, rfl, rfl, rfl, rfl, rfl⟩
  · rw [h]
    exact (steady_pushToClient s _).put _
  · rw [h]
    exact (steady_send env s _ _).reply r
  · rw [h]
    exact ⟨rfl, rfl, rfl, rfl, rfl, rfl, rfl⟩

theorem steady_foldl {f : Server → Connection → Server} (hf : ∀ s c, Steady s (f s c)) :
    ∀ (l : List Connection) (s : Server), Steady s (l.foldl f s)
  | [], s => .refl s
  | c :: l, s => (hf s c).trans (steady_foldl hf l (f s c))

theorem steady_checkRequestTimeouts (s : Server) : Steady s s.checkRequestTimeouts := by
  apply steady_foldl
  intro t c
  exact ⟨rfl, rfl, rfl, rfl, rfl, rfl, rfl⟩

/-- What the loop of `APB_RequestResend` changes. -/
theorem requestResends_eq (env : Env) : ∀ (n : Nat) (packId : UInt16) (s : Server),
    ∃ m os, requestResends env n packId s = { s with allocs := m, out := os }
  | 0, _, s => ⟨s.allocs, s.out, rfl⟩
  | n + 1, packId, s => by
    obtain ⟨os, h, -⟩ := send_eq env s 16 ⟨none, defaultConnection, ptResend, be16 packId⟩
    unfold requestResends
    dsimp only
    rw [h]
    split
    · obtain ⟨m, os', h'⟩ := requestResends_eq env n (packId + 1) { s with allocs := s.allocs + 1, out := s.out ++ os }
      exact ⟨m, os', h'⟩
    · exact ⟨s.allocs + 1, s.out ++ os, rfl⟩

/-- **What the server changes when it notes the id of a packet.** -/
theorem noteId_eq (env : Env) (s : Server) (ip : InPac) :
    ∃ m os last, s.noteId env ip = { s with allocs := m, out := os, lastInPackId := last } := by
  unfold noteId
  dsimp only
  split
  · exact ⟨s.allocs, s.out, s.lastInPackId, rfl⟩
  · split
    · obtain ⟨m, os, h⟩ := requestResends_eq env (ip.pac.packId.toNat - (s.lastInPackId + 1).toNat)
        (s.lastInPackId + 1) s
      unfold requestResend
      dsimp only
      rw [h]
      exact ⟨m, os, ip.pac.packId, rfl⟩
    · exact ⟨s.allocs, s.out, ip.pac.packId, rfl⟩

theorem steady_noteId (env : Env) (s : Server) (ip : InPac) : Steady s (s.noteId env ip) := by
  obtain ⟨m, os, last, h⟩ := noteId_eq env s ip
  rw [h]
  exact ⟨rfl, rfl, rfl, rfl, rfl, rfl, rfl⟩

/-- A packet that is not for the server itself leaves it steady. -/
theorem steady_dispatch (env : Env) (s : Server) (h : ip.pac.connId ≠ defaultConnection) :
    Steady s (s.dispatch env ip) := by
  unfold dispatch
  rw [if_neg h]
  split
  · exact (steady_send env s sizeofPacket ⟨none, ip.pac.connId, ptNoConnection, []⟩).trans (steady_release _ ip)
  · exact steady_handleConnectionPacket env s _ ip

/-- A request leaves the server steady, or tells it to quit. -/
theorem receiveRequest_steady (h : s.receiveRequest env req = some s') :
    Steady s s' ∨ Steady { s with state := .disconnected, quit := true } s' := by
  obtain ⟨r, -, ⟨t, rfl | rfl, rfl⟩ | ⟨c, -, rfl, -⟩ | ⟨-, -, state, -, rfl, -⟩⟩ := receiveRequest_cases h
  · exact .inl ⟨rfl, rfl, rfl, rfl, rfl, rfl, rfl⟩
  · exact .inr ⟨rfl, rfl, rfl, rfl, rfl, rfl, rfl⟩
  · exact .inl (steady_handleClientRequest env s c r)
  · have hw : Steady s (s.withNew state) := ⟨rfl, rfl, rfl, rfl, rfl, rfl, rfl⟩
    exact .inl (hw.trans (steady_handleClientRequest env _ _ r))

end AmiPiBorg.Server
