import AmiPiBorg.Server.Books

/-!
# Connections are opened and closed as a whole

`APB_RT_OPEN` makes a connection and sends its `PT_CONNECT`; `APB_RT_CLOSE` sends the `PT_DISCONNECT`. Either can fail
for want of an object from a pool, which the functions in question do not tell their caller: a connection is left
without its `PT_CONNECT`, and a client is told that a connection was closed which is as before. `all_or_nothing` says
when the requests do everything, or nothing and say so.
-/

set_option autoImplicit false

namespace AmiPiBorg.Server

open ProgLib

variable {env : Env} {s s' t : Server} {c c' : Connection} {req : Request}

/-! ## What the requests should do -/

/-- A connection was made for the request, which waits there for the answer to the `PT_CONNECT` that was sent. -/
structure Opened (s : Server) (req : Request) (s' : Server) (c : Connection) : Prop where
  connections : s'.connections = s.connections ++ [c]
  state : c.state = csConnecting
  out : s'.out = s.out ++ [{ cnn := some c.num, connId := c.id, type := ptConnect, data := be16 c.handlerId }]
  pending : c.reqQueue.map Request.num = [req.num]
  replied : s'.replied = s.replied

/-- The connection is about to go, and the client was told so. -/
structure Closed (s : Server) (c : Connection) (req : Request) (s' : Server) : Prop where
  connections : s'.connections = Keyed.put Connection.num s.connections { c with state := csDisconnecting }
  out : s'.out = s.out ++ [{ cnn := some c.num, connId := c.id, type := ptDisconnect, data := [] }]
  replied : ∃ r, r.num = req.num ∧ r.state = .ok ∧ s'.replied = s.replied ++ [r]

/-- The client was told that its request failed, and nothing else happened to the connections. -/
structure Refused (s : Server) (req : Request) (s' : Server) : Prop where
  connections : s'.connections = s.connections
  replied : ∃ r, r.num = req.num ∧ r.state ≠ .ok ∧ s'.replied = s.replied ++ [r]

/-- The connection is open, or being opened. -/
def Live (c : Connection) : Prop := c.state = csConnecting ∨ c.state = csConnected

instance (c : Connection) : Decidable (Live c) := inferInstanceAs (Decidable (_ ∨ _))

/-- `APB_RT_OPEN` and `APB_RT_CLOSE` are all or nothing. -/
def AllOrNothing (env : Env) (s : Server) (req : Request) : Prop :=
  ∃ s', s.receiveRequest env req = some s' ∧
    (req.type = rtOpen → (∃ c, Opened s req s' c) ∨ Refused s req s') ∧
    (req.type = rtClose → ∀ c ∈ s.target req.connId, Live c → Closed s c req s' ∨ Refused s req s')

/-- The objects that the request needs can be had, and `APB_RT_OPEN` does not name a connection that there is. -/
def Served (env : Env) (s : Server) (req : Request) : Prop :=
  (req.type = rtOpen → s.target req.connId = none ∧ (req.connId = defaultConnection →
    (env.connection s.creations).isSome = true ∧ env.packet s.allocs = true)) ∧
  (req.type = rtClose → ∀ c ∈ s.target req.connId, Live c → env.packet s.allocs = true)

instance (env : Env) (s : Server) (req : Request) : Decidable (Served env s req) :=
  inferInstanceAs (Decidable ((_ → _ ∧ (_ → _ ∧ _)) ∧ (_ → ∀ _ ∈ _, _ → _)))

/-! ## What they do -/

/-- A packet of a possible length is not sent if there is none. -/
theorem send_of_no_packet {length : Nat} (hp : ¬env.packet s.allocs = true) (o : OutPac) :
    s.send env length o = ({ s with allocs := s.allocs + 1 }, false) := if_neg fun h => hp h.2.2

theorem put_newConnection (d : s.Distinct) (state : ConnectionState) (hnum : c.num = s.creations) :
    Keyed.put Connection.num (s.connections ++ [s.newConnection state]) c = s.connections ++ [c] := by
  have hnew : c.num ∉ s.connections.map Connection.num := by
    intro hm
    obtain ⟨b, hb, he⟩ := List.mem_map.1 hm
    have hlt := d.lt b hb
    omega
  have hput : Keyed.put Connection.num (s.connections ++ [s.newConnection state]) c =
      Keyed.put Connection.num s.connections c ++ Keyed.put Connection.num [s.newConnection state] c :=
    List.map_append
  have hlast : Keyed.put Connection.num [s.newConnection state] c = [c] := by
    unfold Keyed.put
    rw [List.map_singleton, if_pos (show (s.newConnection state).num = c.num from hnum.symm)]
  rw [hput, hlast, Keyed.put_eq_self hnew]

/-- The connection of an `APB_RT_OPEN`, before its packet is sent. -/
def opening (s : Server) (state : ConnectionState) (req : Request) : Connection :=
  { s.newConnection state with
    handlerId := req.handlerId,
    reqQueue := [{ req with state := .ok, actual := 0, connId := s.nextConnId,
                            timeoutTicks := if 0 < req.timeout then req.timeout else req.timeoutTicks }] }

theorem receiveRequest_open (ho : req.type = rtOpen) (h₀ : req.connId = defaultConnection) {state : ConnectionState}
    (hc : env.connection s.creations = some state) : s.receiveRequest env req =
      some (((s.withNew state).cnnConnect env (s.opening state req)).1.put
        ((s.withNew state).cnnConnect env (s.opening state req)).2) := by
  unfold receiveRequest handleClientControlMessage createConnection
  dsimp only
  rw [if_pos h₀, if_pos ho, hc]
  unfold handleClientRequest
  dsimp only
  rw [if_pos ho]
  rfl

/-- **A request for a new connection** makes one, and sends its packet if there is one. -/
theorem receiveRequest_open_sent (d : s.Distinct) (ho : req.type = rtOpen) (h₀ : req.connId = defaultConnection)
    {state : ConnectionState} (hc : env.connection s.creations = some state) (hp : env.packet s.allocs = true) :
    s.receiveRequest env req = some { s with
      nextConnId := s.nextConnId + 1,
      creations := s.creations + 1,
      allocs := s.allocs + 1,
      connections := s.connections ++ [{ s.opening state req with state := csConnecting }],
      out := s.out ++ [⟨some s.creations, s.nextConnId, ptConnect, be16 req.handlerId⟩] } := by
  have hsend : (s.withNew state).cnnConnect env (s.opening state req) =
      ({ s.withNew state with
          allocs := s.allocs + 1,
          out := s.out ++ [⟨some s.creations, s.nextConnId, ptConnect, be16 req.handlerId⟩] },
        { s.opening state req with state := csConnecting }) := by
    have hp' : env.packet (s.withNew state).allocs = true := hp
    unfold cnnConnect
    rw [send_of_packet (by decide) (by decide) hp']
    rfl
  have hput := put_newConnection d state
    (show ({ s.opening state req with state := csConnecting } : Connection).num = s.creations from rfl)
  rw [receiveRequest_open ho h₀ hc, hsend, ← hput]
  rfl

theorem receiveRequest_open_unsent (d : s.Distinct) (ho : req.type = rtOpen) (h₀ : req.connId = defaultConnection)
    {state : ConnectionState} (hc : env.connection s.creations = some state) (hp : ¬env.packet s.allocs = true) :
    s.receiveRequest env req = some { s with
      nextConnId := s.nextConnId + 1,
      creations := s.creations + 1,
      allocs := s.allocs + 1,
      connections := s.connections ++ [s.opening state req] } := by
  have hsend : (s.withNew state).cnnConnect env (s.opening state req) =
      ({ s.withNew state with allocs := s.allocs + 1 }, s.opening state req) := by
    have hp' : ¬env.packet (s.withNew state).allocs = true := hp
    unfold cnnConnect
    rw [send_of_no_packet hp']
    rfl
  have hput := put_newConnection d state (show (s.opening state req).num = s.creations from rfl)
  rw [receiveRequest_open ho h₀ hc, hsend, ← hput]
  rfl

/-- With no object for the connection, the server goes on with a null pointer. -/
theorem receiveRequest_open_none (ho : req.type = rtOpen) (h₀ : req.connId = defaultConnection)
    (hc : env.connection s.creations = none) : s.receiveRequest env req = none := by
  unfold receiveRequest handleClientControlMessage createConnection
  dsimp only
  rw [if_pos h₀, if_pos ho, hc]

/-- **`APB_RT_OPEN` for a new connection** is all or nothing if and only if both objects can be had. -/
theorem open_new_iff (d : s.Distinct) (ho : req.type = rtOpen) (h₀ : req.connId = defaultConnection) :
    (∃ s', s.receiveRequest env req = some s' ∧ ((∃ c, Opened s req s' c) ∨ Refused s req s')) ↔
      (env.connection s.creations).isSome = true ∧ env.packet s.allocs = true := by
  cases hc : env.connection s.creations with
  | none =>
    rw [receiveRequest_open_none ho h₀ hc]
    exact iff_of_false (fun ⟨_, h, _⟩ => by cases h) (fun h => by cases h.1)
  | some state =>
    by_cases hp : env.packet s.allocs = true
    · refine iff_of_true ⟨_, receiveRequest_open_sent d ho h₀ hc hp, .inl ⟨_, rfl, rfl, rfl, rfl, rfl⟩⟩ ⟨rfl, hp⟩
    · rw [receiveRequest_open_unsent d ho h₀ hc hp]
      refine iff_of_false ?_ fun h => hp h.2
      rintro ⟨t, ht, ⟨c, h⟩ | h⟩
      · -- the `PT_CONNECT` was not sent
        cases ht
        cases List.self_eq_append_right.1 h.out
      · -- the client was not told
        cases ht
        obtain ⟨r, -, -, hr⟩ := h.replied
        cases List.self_eq_append_right.1 hr

/-- `APB_RT_OPEN` for a connection that there is makes no other, and is not refused. -/
theorem open_known (hc : s.findConnection req.connId = some c) (ho : req.type = rtOpen)
    (h₀ : req.connId ≠ defaultConnection) {s' : Server} (h : s.receiveRequest env req = some s') :
    ¬((∃ c, Opened s req s' c) ∨ Refused s req s') := by
  have hlen : s'.connections.length = s.connections.length ∧ s'.replied = s.replied := by
    unfold receiveRequest at h
    rw [if_neg h₀, hc] at h
    cases h
    unfold handleClientRequest
    dsimp only
    rw [if_pos ho]
    obtain ⟨os, st, hd, -⟩ := cnnConnect_eq env s _
    rw [hd]
    exact ⟨List.length_map .., rfl⟩
  rintro (⟨b, hb⟩ | hr)
  · have hl := congrArg List.length hb.connections
    rw [List.length_append, List.length_singleton, hlen.1] at hl
    omega
  · obtain ⟨r, -, -, hr⟩ := hr.replied
    cases List.self_eq_append_right.1 (hlen.2.symm.trans hr)

theorem receiveRequest_some (env : Env) (s : Server) (ho : req.type ≠ rtOpen) :
    ∃ s', s.receiveRequest env req = some s' := by
  unfold receiveRequest
  split
  · unfold handleClientControlMessage
    dsimp only
    rw [if_neg ho]
    split
    · exact ⟨_, rfl⟩
    · split
      · exact ⟨_, rfl⟩
      · exact ⟨_, rfl⟩
  · split
    · exact ⟨_, rfl⟩
    · exact ⟨_, rfl⟩

/-- **`APB_RT_CLOSE` for a connection that is open, or being opened**, is all or nothing if and only if a packet can be
had: it is never refused. -/
theorem close_iff (env : Env) (hc : s.target req.connId = some c) (hclose : req.type = rtClose) (hl : Live c) :
    ∃ s', s.receiveRequest env req = some s' ∧ (Closed s c req s' ∨ Refused s req s' ↔ env.packet s.allocs = true) := by
  have h₀ : req.connId ≠ defaultConnection := by
    intro h
    rw [target, if_pos h] at hc
    cases hc
  have hf : s.findConnection req.connId = some c := by
    rw [target, if_neg h₀] at hc
    exact hc
  have hlt : c.state < csDisconnecting := by
    obtain hs | hs := hl
    · rw [hs]
      decide
    · rw [hs]
      decide
  refine ⟨s.handleClientRequest env c req, ?_, ?_⟩
  · unfold receiveRequest
    rw [if_neg h₀, hf]
  have hne : ¬rtClose = rtOpen := by decide
  unfold handleClientRequest
  dsimp only
  rw [hclose, if_neg hne, if_pos rfl, if_pos hlt]
  by_cases hp : env.packet s.allocs = true
  · have hsend : s.cnnDisconnect env c = ({ s with
          allocs := s.allocs + 1,
          out := s.out ++ [⟨some c.num, c.id, ptDisconnect, []⟩] }, { c with state := csDisconnecting }) := by
      unfold cnnDisconnect
      rw [send_of_packet (by decide) (by decide) hp]
      rfl
    rw [hsend]
    refine iff_of_true (.inl ⟨rfl, rfl, _, ?_, ?_, rfl⟩) hp
    · rfl
    · rfl
  · have hsend : s.cnnDisconnect env c = ({ s with allocs := s.allocs + 1 }, c) := by
      unfold cnnDisconnect
      rw [send_of_no_packet hp]
      rfl
    rw [hsend]
    refine iff_of_false ?_ hp
    rintro (h | h)
    · cases List.self_eq_append_right.1 h.out
    · -- the client is told that all is well
      obtain ⟨r, -, hr, he⟩ := h.replied
      have heq := List.append_cancel_left he
      rw [List.cons.injEq] at heq
      exact hr (heq.1 ▸ rfl)

/-! ## Both together -/

/-- **`APB_RT_OPEN` and `APB_RT_CLOSE` are all or nothing** if and only if the objects that they need can be had, and
`APB_RT_OPEN` does not name a connection that there is. -/
theorem all_or_nothing (env : Env) (d : s.Distinct) (req : Request) : AllOrNothing env s req ↔ Served env s req := by
  by_cases ho : req.type = rtOpen
  · have hne : ¬req.type = rtClose := by
      rw [ho]
      decide
    have hall : AllOrNothing env s req ↔
        ∃ s', s.receiveRequest env req = some s' ∧ ((∃ c, Opened s req s' c) ∨ Refused s req s') :=
      exists_congr fun s' => and_congr_right fun _ =>
        ⟨fun h => h.1 ho, fun h => ⟨fun _ => h, fun h => absurd h hne⟩⟩
    have hserved : Served env s req ↔ s.target req.connId = none ∧ (req.connId = defaultConnection →
        (env.connection s.creations).isSome = true ∧ env.packet s.allocs = true) :=
      ⟨fun h => h.1 ho, fun h => ⟨fun _ => h, fun h => absurd h hne⟩⟩
    rw [hall, hserved]
    by_cases h₀ : req.connId = defaultConnection
    · rw [open_new_iff d ho h₀]
      have ht : s.target req.connId = none := if_pos h₀
      exact ⟨fun h => ⟨ht, fun _ => h⟩, fun h => h.2 h₀⟩
    · cases hf : s.findConnection req.connId with
      | none =>
        have ht : s.target req.connId = none := by rw [target, if_neg h₀, hf]
        refine iff_of_true ⟨s.reply { req with state := .noConnection }, ?_, .inr ⟨rfl, _, ?_, ?_, rfl⟩⟩
          ⟨ht, fun h => absurd h h₀⟩
        · unfold receiveRequest
          rw [if_neg h₀, hf]
        · rfl
        · exact fun h => by cases h
      | some c =>
        have ht : s.target req.connId = some c := by rw [target, if_neg h₀, hf]
        refine iff_of_false ?_ fun h => ?_
        · rintro ⟨s', h, hs⟩
          exact open_known hf ho h₀ h hs
        · rw [ht] at h
          cases h.1
  · constructor
    · rintro ⟨s', h, -, hs⟩
      refine ⟨fun h => absurd h ho, fun hclose c hc hl => ?_⟩
      obtain ⟨t, ht, hiff⟩ := close_iff env hc hclose hl
      cases h.symm.trans ht
      exact hiff.1 (hs hclose c hc hl)
    · rintro ⟨-, hs⟩
      obtain ⟨s', h⟩ := receiveRequest_some env s ho
      refine ⟨s', h, fun h => absurd h ho, fun hclose c hc hl => ?_⟩
      obtain ⟨t, ht, hiff⟩ := close_iff env hc hclose hl
      cases h.symm.trans ht
      exact hiff.2 (hs hclose c hc hl)

/-- Two packets can be had, for the `PT_INIT` and the first ping. -/
def scarce : Env := { packet := fun n => decide (n < 2), connection := fun _ => some 0 }

theorem open_half_done : ∃ x : Server,
    runs (step scarce) start (greeting ++ [.run true, .wake false, .timer false]) = some x ∧
      Enabled x (.request (ask rtOpen 0)) ∧ ¬AllOrNothing scarce x (ask rtOpen 0) := by
  have h : (runs (step scarce) start (greeting ++ [.run true, .wake false, .timer false])).map
      (fun x => (x.phase, x.clientOpen, x.allocs)) = some (.client, true, 2) := by
    decide +kernel
  obtain ⟨x, hx, he⟩ := Option.map_eq_some_iff.1 h
  rw [Prod.mk.injEq, Prod.mk.injEq] at he
  refine ⟨x, hx, ⟨he.1, he.2.1⟩, ?_⟩
  rintro ⟨s', hs, ho, -⟩
  have hp := ((open_new_iff (distinct_run hx) rfl rfl).1 ⟨s', hs, ho rfl⟩).2
  rw [he.2.2] at hp
  exact absurd hp (by decide)

theorem all_or_nothing_start : start.Distinct ∧ AllOrNothing plenty start (ask rtOpen 0) :=
  ⟨distinct_start, (all_or_nothing plenty distinct_start (ask rtOpen 0)).2 (by decide)⟩

end AmiPiBorg.Server
