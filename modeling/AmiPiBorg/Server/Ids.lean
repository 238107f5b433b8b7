import AmiPiBorg.Server.Openings

/-!
# Ids of connections

A new connection gets the id `srv_NextConnId`, which is then counted up, past 65535 too. Nothing else gives a connection
an id (`SameIds`), so the ids of the connections are distinct, and none is that of the control packets, as long as no
connection is made while `srv_NextConnId` is 0 or the id of a connection that is still there (`connections_identified`).
`reused_control_id` is a run with 65536 connections, one after the other, of which the last has the id 0.
-/

set_option autoImplicit false

namespace AmiPiBorg.Server

open ProgLib

variable {env : Env} {s s' t : Server} {c c' : Connection} {ip : InPac} {req : Request} {e : Event} {es : List Event}

/-! ## What keeps the ids -/

/-- Every connection was there before, with the same id. -/
def SameIds (s s' : Server) : Prop := ∀ c' ∈ s'.connections, ∃ c ∈ s.connections, c'.num = c.num ∧ c'.id = c.id

theorem SameIds.of_eq (h : s'.connections = s.connections) : SameIds s s' := by
  intro c hc
  rw [h] at hc
  exact ⟨c, hc, rfl, rfl⟩

theorem SameIds.trans (h : SameIds s s') (h' : SameIds s' t) : SameIds s t := by
  intro c hc
  obtain ⟨b, hb, hnum, hid⟩ := h' c hc
  obtain ⟨a, ha, hnum', hid'⟩ := h b hb
  exact ⟨a, ha, hnum.trans hnum', hid.trans hid'⟩

/-- Work on a connection. -/
theorem sameIds_put (hc : c ∈ s.connections) (h : s'.connections = s.connections) (hnum : c'.num = c.num)
    (hid : c'.id = c.id) : SameIds s (s'.put c') := by
  intro b hb
  rcases Keyed.mem_put hb with rfl | ⟨hb, -⟩
  · exact ⟨c, hc, hnum, hid⟩
  · rw [h] at hb
    exact ⟨b, hb, rfl, rfl⟩

theorem sameIds_remove (h : s'.connections = Keyed.remove Connection.num s.connections c.num) : SameIds s s' := by
  intro b hb
  rw [h] at hb
  exact ⟨b, (Keyed.mem_remove.1 hb).1, rfl, rfl⟩

theorem pushToClient_id (s : Server) (c : Connection) : (s.pushToClient c).1.connections = s.connections ∧
    (s.pushToClient c).2.num = c.num ∧ (s.pushToClient c).2.id = c.id := by
  unfold pushToClient
  split
  · exact ⟨rfl, rfl, rfl⟩
  · exact ⟨rfl, rfl, rfl⟩

theorem replyRequest_id (s : Server) (c : Connection) (type : UInt16) (state : RequestState) :
    (s.replyRequest c type state).1.connections = s.connections ∧ (s.replyRequest c type state).2.num = c.num ∧
      (s.replyRequest c type state).2.id = c.id := by
  unfold replyRequest
  split
  · exact ⟨rfl, rfl, rfl⟩
  · exact ⟨rfl, rfl, rfl⟩

/-- **A packet for a connection** gives no id. -/
theorem sameIds_handleConnectionPacket (env : Env) (hc : c ∈ s.connections) (ip : InPac) :
    SameIds s (s.handleConnectionPacket env c ip) := by
  unfold handleConnectionPacket
  dsimp only
  split
  · obtain ⟨h₁, h₂, h₃⟩ := replyRequest_id (s.release ip) { c with state := csConnected } rtOpen .ok
    exact sameIds_put hc h₁ h₂ h₃
  split
  · obtain ⟨n, os, state, h, -⟩ := disconnect_eq env (s.release ip) { c with state := csDisconnected }
    unfold destroyConnection
    rw [h]
    exact sameIds_remove rfl
  split
  · obtain ⟨h₁, h₂, h₃⟩ := replyRequest_id s { c with state := csNoHandler } rtOpen .noHandler
    exact sameIds_put hc h₁ h₂ h₃
  split
  · exact .of_eq rfl
  · obtain ⟨h₁, h₂, h₃⟩ := pushToClient_id { s with handed := s.handed ++ [(c.num, ip)] }
      { c with packetQueue := c.packetQueue ++ [ip] }
    exact sameIds_put hc h₁ h₂ h₃

/-- **A request for a connection** gives no id. -/
theorem sameIds_handleClientRequest (env : Env) (hc : c ∈ s.connections) (req : Request) :
    SameIds s (s.handleClientRequest env c req) := by
  obtain ⟨r, -, ⟨-, h⟩ | ⟨-, h⟩ | ⟨-, h⟩ | ⟨-, -, -, -, h⟩ | h⟩ := handleClientRequest_cases env s c req
  · obtain ⟨os, state, he, -⟩ :=
      cnnConnect_eq env s { c with handlerId := req.handlerId, reqQueue := c.reqQueue ++ [r] }
    rw [h, he]
    apply sameIds_put hc
    · rfl
    · rfl
    · rfl
  · obtain ⟨n, os, state, he, -⟩ := disconnect_eq env s c
    rw [h, he]
    have hp : SameIds s (Server.put { s with allocs := n, out := s.out ++ os } { c with state := state }) := by
      apply sameIds_put hc
      · rfl
      · rfl
      · rfl
    exact hp.trans (.of_eq rfl)
  · obtain ⟨h₁, h₂, h₃⟩ := pushToClient_id s { c with reqQueue := c.reqQueue ++ [r] }
    rw [h]
    exact sameIds_put hc h₁ h₂ h₃
  · obtain ⟨os, he, -⟩ := send_eq env s ((sizeofPacket + req.length.toNat) % 65536)
      ⟨some c.num, c.id, ptData, req.data.take req.length.toNat⟩
    rw [h, he]
    exact .of_eq rfl
  · rw [h]
    exact .of_eq rfl

theorem sameIds_handlePacket (env : Env) (s : Server) (ip : InPac) : SameIds s (s.handlePacket env ip) := by
  obtain ⟨m, os, last, hn⟩ := noteId_eq env (s.hear ip) ip
  rw [handlePacket_eq, hn]
  unfold dispatch
  split
  · obtain ⟨t, hq, he⟩ := handleControlPacket_eq env
      { s.hear ip with allocs := m, out := os, lastInPackId := last } ip
    rw [he]
    exact .of_eq hq.connections
  · split
    · obtain ⟨os', he, -⟩ := send_eq env { s.hear ip with allocs := m, out := os, lastInPackId := last }
        sizeofPacket ⟨none, ip.pac.connId, ptNoConnection, []⟩
      unfold sendError
      rw [he]
      exact .of_eq rfl
    · next c hf => exact sameIds_handleConnectionPacket env (mem_of_findConnection hf) ip

theorem sameIds_handleTimer (env : Env) (d : s.Distinct) : SameIds s (s.handleTimer env) := by
  unfold handleTimer
  dsimp only
  split
  · exact .of_eq rfl
  · have hq := (quiet_checkPing s).trans (quiet_nextPing env s.checkPing)
    have hr : ∀ t : Server, t.Distinct → SameIds t t.checkRequestTimeouts := by
      intro t ht
      apply Keyed.foldl_inv connections (SameIds t) _ ht.nodup (fun _ hb => hb) (.of_eq rfl)
      intro u c hu hc
      refine ⟨hu.trans (sameIds_put hc rfl ?_ ?_), fun b hb hne => Keyed.mem_put_of_ne hb hne⟩
      · rfl
      · rfl
    have h := hr _ (d.congr hq.connections (Nat.le_of_eq hq.creations.symm))
    exact (SameIds.of_eq hq.connections).trans h
  · exact .of_eq rfl
  · exact .of_eq rfl

/-! ## Identified connections -/

/-- The ids of the connections. -/
def ids (s : Server) : List UInt16 := s.connections.map Connection.id

/-- The ids are distinct, and none is that of the control packets. -/
structure Identified (s : Server) : Prop where
  nodup : s.ids.Nodup
  control : defaultConnection ∉ s.ids

theorem Identified.same (h : s.Identified) (hs : SameIds s s') (d : s'.Distinct) : s'.Identified := by
  refine ⟨List.Nodup.map_on (fun a ha b hb hab => ?_) d.nodup.of_map, fun hm => ?_⟩
  · obtain ⟨a', ha', hnum, hid⟩ := hs a ha
    obtain ⟨b', hb', hnum', hid'⟩ := hs b hb
    have hab' : a' = b' := List.inj_on_of_nodup_map h.nodup ha' hb' (by rw [← hid, ← hid', hab])
    exact List.inj_on_of_nodup_map d.nodup ha hb (by rw [hnum, hnum', hab'])
  · obtain ⟨c, hc, hid⟩ := List.mem_map.1 hm
    obtain ⟨b, hb, -, hid'⟩ := hs c hc
    exact h.control (List.mem_map.2 ⟨b, hb, hid'.symm.trans hid⟩)

/-- **A new connection** is identified if and only if its id is not in use. -/
theorem identified_withNew (h : s.Identified) (state : ConnectionState) :
    (s.withNew state).Identified ↔ s.nextConnId ≠ defaultConnection ∧ s.nextConnId ∉ s.ids := by
  have hids : (s.withNew state).ids = s.ids ++ [s.nextConnId] := List.map_append
  constructor
  · rintro ⟨hn, hc⟩
    rw [hids] at hn hc
    obtain ⟨-, -, hd⟩ := List.nodup_append.1 hn
    refine ⟨fun h₀ => hc (List.mem_append_right _ (by rw [h₀]; exact List.mem_singleton_self _)), fun hm => ?_⟩
    exact hd _ hm _ (List.mem_singleton_self _) rfl
  · rintro ⟨hc, hm⟩
    constructor
    · rw [hids, List.nodup_append]
      refine ⟨h.nodup, List.nodup_singleton _, fun a ha b hb hab => ?_⟩
      rw [hab, List.mem_singleton.1 hb] at ha
      exact hm ha
    · rw [hids, List.mem_append, List.mem_singleton]
      rintro (hd | hd)
      · exact h.control hd
      · exact hc hd.symm

/-- The id finds its connection. -/
theorem Identified.find (h : s.Identified) (hc : c ∈ s.connections) : s.findConnection c.id = some c := by
  obtain ⟨b, hb⟩ : ∃ b, s.findConnection c.id = some b := by
    apply Option.isSome_iff_exists.1
    apply List.find?_isSome.2
    exact ⟨c, hc, decide_eq_true rfl⟩
  have hid : b.id = c.id := by simpa using List.find?_some hb
  rw [hb, List.inj_on_of_nodup_map h.nodup (mem_of_findConnection hb) hc hid]

/-- A packet with the id goes to that connection. -/
theorem Identified.handlePacket (h : s.Identified) (env : Env) (hc : c ∈ s.connections) (hip : ip.pac.connId = c.id) :
    ∃ t : Server, t.connections = s.connections ∧ s.handlePacket env ip = t.handleConnectionPacket env c ip := by
  have hn := quiet_noteId env (s.hear ip) ip
  have hf : ((s.hear ip).noteId env ip).findConnection c.id = some c := by
    rw [← h.find hc]
    unfold findConnection
    rw [hn.connections]
    rfl
  have h₀ : c.id ≠ defaultConnection := fun h₀ => h.control (h₀ ▸ List.mem_map_of_mem hc)
  refine ⟨(s.hear ip).noteId env ip, hn.connections, ?_⟩
  rw [handlePacket_eq]
  unfold dispatch
  rw [hip, if_neg h₀, hf]

/-! ## Runs -/

/-- No connection is made while the next id is that of the control packets, or of a connection that is there. -/
def FreshId (s : Server) : Event → Prop
  | .request req => req.connId = defaultConnection → req.type = rtOpen →
      s.nextConnId ≠ defaultConnection ∧ s.nextConnId ∉ s.ids
  | _ => True

instance (s : Server) : (e : Event) → Decidable (FreshId s e)
  | .run _ => .isTrue trivial
  | .wake _ => .isTrue trivial
  | .timer _ => .isTrue trivial
  | .request _ => inferInstanceAs (Decidable (_ → _ → _ ∧ _))
  | .requestsDone => .isTrue trivial
  | .packet .. => .isTrue trivial
  | .packetsDone => .isTrue trivial

/-- The ids are right, and the connections are told apart. -/
structure Named (s : Server) : Prop where
  distinct : s.Distinct
  identified : s.Identified

theorem Named.step (h : s.Named) (hf : s.FreshId e) (he : Server.step env s e = some s') : s'.Named := by
  have d := (booked_step h.distinct he).distinct
  refine ⟨d, ?_⟩
  cases e with
  | run ok =>
    cases he
    exact h.identified.same (.of_eq (quiet_runStep env s ok).connections) d
  | wake brk =>
    cases he
    cases brk with
    | false => exact h.identified.same (.of_eq rfl) d
    | true => exact h.identified.same (.of_eq rfl) d
  | timer fired =>
    cases he
    cases fired with
    | false => exact h.identified.same (.of_eq rfl) d
    | true => exact h.identified.same ((sameIds_handleTimer env h.distinct).trans (.of_eq rfl)) d
  | request req =>
    have h' : ({ s with taken := s.taken + 1 } : Server).Identified :=
      ⟨h.identified.nodup, h.identified.control⟩
    obtain ⟨r, -, ⟨t, ht, rfl⟩ | ⟨c, hc, rfl, -⟩ | ⟨h₀, ho, state, -, rfl, -⟩⟩ := receiveRequest_cases he
    · exact h'.same (.of_eq (quiet_of_quit ht).connections) d
    · exact h'.same (sameIds_handleClientRequest env (mem_of_target hc) r) d
    · have hw := (identified_withNew h' state).2 (hf h₀ ho)
      exact hw.same (sameIds_handleClientRequest env (List.mem_append_right _ (List.mem_singleton_self _)) r) d
  | requestsDone =>
    cases he
    exact h.identified.same (.of_eq rfl) d
  | packet seq pac =>
    cases he
    have hp := sameIds_handlePacket env { s with dequeued := s.dequeued + 1 } ⟨s.dequeued, seq, pac⟩
    exact h.identified.same ((SameIds.of_eq rfl).trans hp) d
  | packetsDone =>
    cases he
    exact h.identified.same (.of_eq rfl) d

/-- **Ids identify connections** in every run in which no connection is made with an id that is in use. -/
theorem connections_identified (env : Env) {es : List Event} {x : Server} (h : Along FreshId (step env) start es)
    (hx : runs (step env) start es = some x) :
    x.Identified ∧ ∀ c ∈ x.connections, x.findConnection c.id = some c ∧ ∀ ip : InPac, ip.pac.connId = c.id →
      ∃ t : Server, t.connections = x.connections ∧ x.handlePacket env ip = t.handleConnectionPacket env c ip := by
  have hstart : start.Named := ⟨distinct_start, List.nodup_nil, List.not_mem_nil⟩
  have hn : x.Named := runs_inv Named (fun _ _ _ hn hf he => hn.step hf he) hstart h hx
  exact ⟨hn.identified, fun c hc => ⟨hn.identified.find hc, fun ip hip => hn.identified.handlePacket env hc hip⟩⟩

theorem connections_identified_two : ∃ x : Server,
    runs (step plenty) start (greeting ++ pass [ask rtOpen 0, ask rtOpen 0] []) = some x ∧ x.Identified := by
  obtain ⟨x, hx⟩ : ∃ x, runs (step plenty) start (greeting ++ pass [ask rtOpen 0, ask rtOpen 0] []) = some x :=
    Option.isSome_iff_exists.1 (by decide +kernel)
  exact ⟨x, hx, (connections_identified plenty (by decide +kernel) hx).1⟩

/-! ### Past 65535 -/

/-- A client opens a connection, and the Pi has it go. -/
def round (n : Nat) : List Event := pass [ask rtOpen 0] [bare (n + 1) ptDisconnected (UInt16.ofNat n)]

/-- `n` connections, one after the other. -/
def rounds (n : Nat) : List Event := greeting ++ (List.range n).flatMap fun i => round (i + 1)

/-- The server is connected, in the loop of `APB_Run`, without a connection, and connection `n` is the next. -/
structure Idle (s : Server) (n : Nat) : Prop where
  phase : s.phase = .loop
  state : s.state = .connected
  clientOpen : s.clientOpen = true
  connections : s.connections = []
  nextConnId : s.nextConnId = UInt16.ofNat n

/-- A call of `APB_WaitForMessage` up to the requests. -/
theorem Idle.wake {n : Nat} (h : s.Idle n) :
    runs (step plenty) s [.run true, .wake false, .timer false] = some { s with phase := .client } ∧
      Along Enabled (step plenty) s [.run true, .wake false, .timer false] := by
  have hrun : step plenty s (.run true) = some { s with phase := .wait } := by
    unfold step runStep
    rw [h.state]
  have hs : s.state ≠ .stopped := by
    rw [h.state]
    decide
  refine ⟨?_, (along_cons hrun).2 ⟨⟨h.phase, hs⟩, (along_cons rfl).2 ⟨rfl, (along_cons rfl).2 ⟨⟨rfl, ?_⟩, trivial⟩⟩⟩⟩
  · rw [runs_cons hrun]
    rfl
  · exact fun he => by cases he

/-- The connection that a client opens. -/
def newcomer (s : Server) : Connection :=
  { s.opening 0 { ask rtOpen 0 with num := s.taken } with state := csConnecting }

/-- A client opens a connection. -/
theorem Idle.open {n : Nat} (h : s.Idle n) : ∃ t, step plenty { s with phase := .client } (.request (ask rtOpen 0)) =
      some t ∧ t.connections = [s.newcomer] ∧ t.phase = .client ∧ t.state = .connected ∧ t.clientOpen = true ∧
        t.nextConnId = UInt16.ofNat (n + 1) := by
  have d : ({ s with phase := .client, taken := s.taken + 1 } : Server).Distinct := by
    constructor
    · rw [h.connections]
      exact List.nodup_nil
    · rw [h.connections]
      exact fun c hc => by cases hc
  have hopen : { ask rtOpen 0 with num := s.taken }.type = rtOpen := rfl
  refine ⟨_, receiveRequest_open_sent d hopen rfl rfl rfl, ?_, rfl, h.state, h.clientOpen, ?_⟩
  · show s.connections ++ [s.newcomer] = [s.newcomer]
    rw [h.connections, List.nil_append]
  · show s.nextConnId + 1 = _
    rw [h.nextConnId, UInt16.ofNat_add]
    rfl

/-- The Pi has the only connection go. -/
theorem handlePacket_disconnected (env : Env) (s : Server) (ip : InPac) (hconn : s.connections = [c]) (h₀ : c.id ≠ defaultConnection)
    (hip : ip.pac.connId = c.id) (ht : ip.pac.type = ptDisconnected) :
    (s.handlePacket env ip).connections = [] ∧ (s.handlePacket env ip).phase = s.phase ∧
      (s.handlePacket env ip).state = s.state ∧ (s.handlePacket env ip).clientOpen = s.clientOpen ∧
      (s.handlePacket env ip).nextConnId = s.nextConnId := by
  obtain ⟨m, os, last, hn⟩ := noteId_eq env (s.hear ip) ip
  have hf : ({ s.hear ip with allocs := m, out := os, lastInPackId := last } : Server).findConnection c.id = some c := by
    show s.connections.find? (fun b => b.id = c.id) = some c
    rw [hconn]
    exact List.find?_cons_of_pos (decide_eq_true rfl)
  rw [handlePacket_eq, hn]
  unfold dispatch
  rw [hip, if_neg h₀, hf]
  unfold handleConnectionPacket destroyConnection
  have hne : ¬ptDisconnected = ptConnected := by decide
  have hlt : ¬csDisconnected < csDisconnecting := by decide
  dsimp only
  rw [ht, if_neg hne, if_pos rfl, if_neg hlt]
  refine ⟨?_, rfl, rfl, rfl, rfl⟩
  show Keyed.remove Connection.num s.connections c.num = []
  rw [hconn]
  unfold Keyed.remove
  simp

/-- One connection comes and goes. -/
theorem Idle.round {n : Nat} (h : s.Idle n) (hn : UInt16.ofNat n ≠ defaultConnection) :
    Along Enabled (step plenty) s (round n) ∧ ∃ t, runs (step plenty) s (round n) = some t ∧ t.Idle (n + 1) := by
  have hsplit : Server.round n = [.run true, .wake false, .timer false] ++
      [.request (ask rtOpen 0), .requestsDone, .packet (n + 1) (bare (n + 1) ptDisconnected (UInt16.ofNat n)).pac,
        .packetsDone] := rfl
  obtain ⟨hw, haw⟩ := h.wake
  obtain ⟨t, ht, hc, hph, hst, hco, hid⟩ := h.open
  have hnew : s.newcomer.id = UInt16.ofNat n := h.nextConnId
  obtain ⟨h₁, h₂, h₃, h₄, h₅⟩ := handlePacket_disconnected plenty
    { t with phase := .remote, dequeued := t.dequeued + 1 }
    ⟨t.dequeued, n + 1, (bare (n + 1) ptDisconnected (UInt16.ofNat n)).pac⟩ hc (hnew.trans_ne hn) hnew.symm rfl
  constructor
  · rw [hsplit, along_append]
    refine ⟨haw, fun u hu => ?_⟩
    cases hw.symm.trans hu
    refine (along_cons ht).2 ⟨⟨rfl, h.clientOpen⟩, ?_⟩
    refine (along_cons rfl).2 ⟨hph, ?_⟩
    refine (along_cons rfl).2 ⟨rfl, ?_⟩
    exact (along_cons rfl).2 ⟨h₂, trivial⟩
  · rw [hsplit, runs_append, hw, Option.bind_some, runs_cons ht]
    exact ⟨_, rfl, rfl, h₃.trans hst, h₄.trans hco, h₁, h₅.trans hid⟩

theorem idle_rounds : ∀ {n : Nat}, n < 65536 → Along Enabled (step plenty) start (rounds n) ∧
    ∃ t, runs (step plenty) start (rounds n) = some t ∧ t.Idle (n + 1)
  | 0, _ => by
    refine ⟨by decide +kernel, ?_⟩
    have h : (runs (step plenty) start (rounds 0)).map
        (fun x => (x.phase, x.state, x.clientOpen, x.connections, x.nextConnId)) =
        some (.loop, .connected, true, [], UInt16.ofNat 1) := by
      decide +kernel
    obtain ⟨x, hx, he⟩ := Option.map_eq_some_iff.1 h
    simp only [Prod.mk.injEq] at he
    exact ⟨x, hx, he.1, he.2.1, he.2.2.1, he.2.2.2.1, he.2.2.2.2⟩
  | n + 1, hn => by
    obtain ⟨ha, t, ht, hi⟩ := idle_rounds (Nat.lt_of_succ_lt hn)
    have h₀ : UInt16.ofNat (n + 1) ≠ defaultConnection := by
      intro h
      have := congrArg UInt16.toNat h
      rw [UInt16.toNat_ofNat'] at this
      have hz : (n + 1) % 65536 = 0 := this
      omega
    obtain ⟨ha', t', ht', hi'⟩ := hi.round h₀
    have hsplit : rounds (n + 1) = rounds n ++ Server.round (n + 1) := by
      unfold rounds
      rw [List.range_succ, List.flatMap_append, List.flatMap_singleton, List.append_assoc]
    rw [hsplit, along_append, runs_append, ht]
    refine ⟨⟨ha, fun u hu => ?_⟩, t', ht', hi'⟩
    cases hu
    exact ha'

/-- 65535 connections come and go, and one more is made. -/
def oneMore : List Event := rounds 65535 ++ [.run true, .wake false, .timer false, .request (ask rtOpen 0)]

theorem reused_control_id : Along Enabled (step plenty) start oneMore ∧
    ∃ x : Server, runs (step plenty) start oneMore = some x ∧ defaultConnection ∈ x.ids ∧ ¬x.Identified := by
  obtain ⟨ha, t, ht, hi⟩ := idle_rounds (n := 65535) (by decide)
  obtain ⟨hw, haw⟩ := hi.wake
  obtain ⟨x, hx, hc, -⟩ := hi.open
  have hsplit : oneMore = rounds 65535 ++ ([.run true, .wake false, .timer false] ++ [.request (ask rtOpen 0)]) := rfl
  have hzero : defaultConnection ∈ x.ids := by
    unfold ids
    have hnew : t.newcomer.id = UInt16.ofNat 65536 := hi.nextConnId
    rw [hc, List.map_singleton, List.mem_singleton, hnew]
    rfl
  rw [hsplit]
  refine ⟨along_append.2 ⟨ha, fun u hu => ?_⟩, x, ?_, hzero, fun h => h.control hzero⟩
  · cases ht.symm.trans hu
    refine along_append.2 ⟨haw, fun v hv => ?_⟩
    cases hw.symm.trans hv
    exact (along_cons hx).2 ⟨⟨rfl, hi.clientOpen⟩, trivial⟩
  · rw [runs_append, ht, Option.bind_some, runs_append, hw, Option.bind_some, runs_cons hx]
    rfl

end AmiPiBorg.Server
