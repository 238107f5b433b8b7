import AmiPiBorg.Server.Books

/-!
# What a connection sends

`trace s n` are the types of the packets that connection object `n` has sent. It follows the protocol (`Conforms`) if it
is a start of `PT_CONNECT`, any number of `PT_DATA`, `PT_DISCONNECT`. A connection that is there either has not sent its
`PT_DISCONNECT` or is in a state in which it sends nothing more (`Follows`); every event keeps this (`InTurn.step`) but
two: an `APB_RT_OPEN` that names a connection, and a `PT_CONNECTED` that comes after the `PT_DISCONNECT`, both of which
set `cnn_State` without looking at it (`connected_after_disconnect`).
-/

set_option autoImplicit false

namespace AmiPiBorg.Server

open ProgLib

variable {env : Env} {s s' t : Server} {c c' : Connection} {ip : InPac} {req : Request} {e : Event} {es : List Event}

/-! ## Traces -/

/-- The types of the packets that connection object `n` has sent. -/
def trace (s : Server) (n : Nat) : List UInt8 := (s.out.filter fun o => o.cnn = some n).map OutPac.type

/-- A start of `PT_CONNECT`, any number of `PT_DATA`, `PT_DISCONNECT`. -/
def Conforms (w : List UInt8) : Prop := ∃ k, w <+: ptConnect :: (List.replicate k ptData ++ [ptDisconnect])

/-- `PT_CONNECT` and then data. -/
def opened (k : Nat) : List UInt8 := ptConnect :: List.replicate k ptData

/-- The trace and the state of a connection that is there. -/
def Follows (w : List UInt8) (state : ConnectionState) : Prop :=
  (∃ k, w = opened k) ∨
    (∃ k, w = opened k ++ [ptDisconnect]) ∧ (state = csDisconnecting ∨ state = csDisconnected ∨ state = csNoHandler)

theorem Follows.conforms {w : List UInt8} {state : ConnectionState} (h : Follows w state) : Conforms w := by
  obtain ⟨k, rfl⟩ | ⟨⟨k, rfl⟩, -⟩ := h
  · exact ⟨k, [ptDisconnect], rfl⟩
  · exact ⟨k, [], List.append_nil _⟩

/-- Whoever has not disconnected may send data. -/
theorem Follows.data {w : List UInt8} {state : ConnectionState} (h : Follows w state) (h₁ : state ≠ csDisconnecting)
    (h₂ : state ≠ csDisconnected) (h₃ : state ≠ csNoHandler) : Follows (w ++ [ptData]) state := by
  obtain ⟨k, rfl⟩ | ⟨-, h | h | h⟩ := h
  · refine .inl ⟨k + 1, ?_⟩
    rw [opened, opened, List.replicate_succ', List.cons_append]
  · exact absurd h h₁
  · exact absurd h h₂
  · exact absurd h h₃

/-- Whoever has not disconnected may do so. -/
theorem Follows.disconnect {w : List UInt8} {state : ConnectionState} (h : Follows w state)
    (hs : state < csDisconnecting) : Follows (w ++ [ptDisconnect]) csDisconnecting := by
  obtain ⟨k, rfl⟩ | ⟨-, rfl | rfl | rfl⟩ := h
  · exact .inr ⟨⟨k, rfl⟩, .inl rfl⟩
  · exact absurd hs (by decide)
  · exact absurd hs (by decide)
  · exact absurd hs (by decide)

theorem not_mem_opened (k : Nat) : ptDisconnect ∉ opened k := by
  intro h
  rcases List.mem_cons.1 h with h | h
  · exact absurd h (by decide)
  · exact absurd (List.eq_of_mem_replicate h) (by decide)

/-- Whoever has not disconnected may be in any state. -/
theorem Follows.any {w : List UInt8} {state : ConnectionState} (h : Follows w state) (hw : ptDisconnect ∉ w)
    (state' : ConnectionState) : Follows w state' := by
  obtain h | ⟨⟨k, rfl⟩, -⟩ := h
  · exact .inl h
  · exact absurd (List.mem_append_right _ List.mem_cons_self) hw

/-- A state in which nothing is sent may come at any time. -/
theorem Follows.rest {w : List UInt8} {state state' : ConnectionState} (h : Follows w state)
    (hs : state' = csDisconnecting ∨ state' = csDisconnected ∨ state' = csNoHandler) : Follows w state' := by
  obtain h | ⟨h, -⟩ := h
  · exact .inl h
  · exact .inr ⟨h, hs⟩

theorem trace_append {os : List OutPac} (h : s'.out = s.out ++ os) (n : Nat) :
    s'.trace n = s.trace n ++ (os.filter fun o => o.cnn = some n).map OutPac.type := by
  unfold trace
  rw [h, List.filter_append, List.map_append]

theorem trace_congr (h : s'.out = s.out) (n : Nat) : s'.trace n = s.trace n := by
  unfold trace
  rw [h]

theorem Quiet.trace (h : Quiet s s') (n : Nat) : s'.trace n = s.trace n := by
  obtain ⟨os, ho, hos⟩ := h.out
  have hf : os.filter (fun o => o.cnn = some n) = [] := by
    apply List.filter_eq_nil_iff.2
    intro o hm
    rw [hos o hm]
    simp
  rw [trace_append ho, hf, List.map_nil, List.append_nil]

/-- What a connection sends is in its own trace. -/
theorem trace_self {o : OutPac} (h : s'.out = s.out ++ [o]) (ho : o.cnn = some c.num) :
    s'.trace c.num = s.trace c.num ++ [o.type] ∧ ∀ n, n ≠ c.num → s'.trace n = s.trace n := by
  refine ⟨?_, fun n hn => ?_⟩
  · rw [trace_append h, List.filter_cons_of_pos (by simpa using ho)]
    rfl
  · have hne : ¬o.cnn = some n := by
      rw [ho, Option.some.injEq]
      exact hn.symm
    rw [trace_append h, List.filter_cons_of_neg (by simpa using hne)]
    exact List.append_nil _

/-! ## The invariant -/

/-- Every connection follows the protocol. -/
structure InTurn (s : Server) : Prop where
  distinct : s.Distinct
  follows : ∀ c ∈ s.connections, Follows (s.trace c.num) c.state
  conforms : ∀ n, Conforms (s.trace n)
  fresh : ∀ n, s.creations ≤ n → s.trace n = []

/-- Only one connection object sends, or changes, or goes. -/
theorem InTurn.change (h : s.InTurn) (hc : c ∈ s.connections) (d : s'.Distinct) (hcr : s'.creations = s.creations)
    (ho : ∀ n, n ≠ c.num → s'.trace n = s.trace n) (hw : Conforms (s'.trace c.num))
    (hm : ∀ b ∈ s'.connections, b ∈ s.connections ∧ b.num ≠ c.num ∨
      b.num = c.num ∧ Follows (s'.trace c.num) b.state) : s'.InTurn := by
  refine ⟨d, fun b hb => ?_, fun n => ?_, fun n hn => ?_⟩
  · obtain ⟨hb, hne⟩ | ⟨hn, hf⟩ := hm b hb
    · rw [ho b.num hne]
      exact h.follows b hb
    · rw [hn]
      exact hf
  · by_cases hn : n = c.num
    · rw [hn]
      exact hw
    · rw [ho n hn]
      exact h.conforms n
  · have hlt := h.distinct.lt c hc
    rw [hcr] at hn
    rw [ho n (by omega)]
    exact h.fresh n hn

/-- Work on a connection, with what it sends. -/
theorem InTurn.put (h : s.InTurn) (hc : c ∈ s.connections) (hconn : s'.connections = s.connections)
    (hcr : s'.creations = s.creations) (hnum : c'.num = c.num) (ho : ∀ n, n ≠ c.num → s'.trace n = s.trace n)
    (hf : Follows (s'.trace c.num) c'.state) : (s'.put c').InTurn := by
  apply h.change hc ((h.distinct.congr hconn (Nat.le_of_eq hcr.symm)).put c') hcr ho hf.conforms
  intro b hb
  rcases Keyed.mem_put hb with rfl | ⟨hb, hne⟩
  · exact .inr ⟨hnum, hf⟩
  · rw [hconn] at hb
    rw [hnum] at hne
    exact .inl ⟨hb, hne⟩

/-- Work on a connection that sends nothing. -/
theorem InTurn.put_silent (h : s.InTurn) (hc : c ∈ s.connections) (hconn : s'.connections = s.connections)
    (hcr : s'.creations = s.creations) (hout : s'.out = s.out) (hnum : c'.num = c.num)
    (hf : Follows (s.trace c.num) c'.state) : (s'.put c').InTurn := by
  apply h.put hc hconn hcr hnum (fun n _ => trace_congr hout n)
  rw [trace_congr hout]
  exact hf

/-- A connection that goes. -/
theorem InTurn.remove (h : s.InTurn) (hc : c ∈ s.connections)
    (hconn : s'.connections = Keyed.remove Connection.num s.connections c.num) (hcr : s'.creations = s.creations)
    (ho : ∀ n, n ≠ c.num → s'.trace n = s.trace n) (hw : Conforms (s'.trace c.num)) : s'.InTurn := by
  have hm : ∀ b ∈ s'.connections, b ∈ s.connections ∧ b.num ≠ c.num := by
    intro b hb
    rw [hconn] at hb
    exact Keyed.mem_remove.1 hb
  refine h.change hc ⟨?_, fun b hb => ?_⟩ hcr ho hw fun b hb => .inl (hm b hb)
  · rw [hconn]
    exact (Keyed.map_key_remove Connection.num s.connections c.num).nodup h.distinct.nodup
  · rw [hcr]
    exact h.distinct.lt b (hm b hb).1

/-- A connection sends a packet, and is `c'` then. -/
theorem InTurn.put_send (h : s.InTurn) (hc : c ∈ s.connections) (n : Nat) {o : OutPac} (ho : o.cnn = some c.num)
    (hnum : c'.num = c.num) (hf : Follows (s.trace c.num ++ [o.type]) c'.state) :
    (Server.put { s with allocs := n, out := s.out ++ [o] } c').InTurn := by
  have ht : ({ s with allocs := n, out := s.out ++ [o] } : Server).trace c.num = s.trace c.num ++ [o.type] ∧
      ∀ m, m ≠ c.num → ({ s with allocs := n, out := s.out ++ [o] } : Server).trace m = s.trace m := trace_self rfl ho
  refine h.put hc rfl rfl hnum ht.2 ?_
  rw [ht.1]
  exact hf

/-- A connection sends a packet, and stays as it is. -/
theorem InTurn.send (h : s.InTurn) (hc : c ∈ s.connections) (n : Nat) {o : OutPac} (ho : o.cnn = some c.num)
    (hf : Follows (s.trace c.num ++ [o.type]) c.state) :
    ({ s with allocs := n, out := s.out ++ [o] } : Server).InTurn := by
  have ht : ({ s with allocs := n, out := s.out ++ [o] } : Server).trace c.num = s.trace c.num ++ [o.type] ∧
      ∀ m, m ≠ c.num → ({ s with allocs := n, out := s.out ++ [o] } : Server).trace m = s.trace m := trace_self rfl ho
  have hf' : Follows (({ s with allocs := n, out := s.out ++ [o] } : Server).trace c.num) c.state := by
    rw [ht.1]
    exact hf
  refine h.change hc (h.distinct.congr rfl (Nat.le_refl _)) rfl ht.2 hf'.conforms fun b hb => ?_
  by_cases hn : b.num = c.num
  · rw [List.inj_on_of_nodup_map h.distinct.nodup hb hc hn]
    exact .inr ⟨rfl, hf'⟩
  · exact .inl ⟨hb, hn⟩

/-- Nothing that has to do with the traces changes. -/
theorem InTurn.congr (h : s.InTurn) (hconn : s'.connections = s.connections) (hcr : s'.creations = s.creations)
    (ht : ∀ n, s'.trace n = s.trace n) : s'.InTurn := by
  refine ⟨h.distinct.congr hconn (Nat.le_of_eq hcr.symm), fun c hc => ?_, fun n => ?_, fun n hn => ?_⟩
  · rw [hconn] at hc
    rw [ht]
    exact h.follows c hc
  · rw [ht]
    exact h.conforms n
  · rw [hcr] at hn
    rw [ht]
    exact h.fresh n hn

theorem InTurn.quiet (h : s.InTurn) (hq : Quiet s s') : s'.InTurn := h.congr hq.connections hq.creations hq.trace

/-! ## Events -/

theorem pushToClient_state (s : Server) (c : Connection) : (s.pushToClient c).2.state = c.state ∧
    (s.pushToClient c).2.num = c.num ∧ (s.pushToClient c).1.connections = s.connections ∧
    (s.pushToClient c).1.creations = s.creations ∧ (s.pushToClient c).1.out = s.out := by
  unfold pushToClient
  split
  · exact ⟨rfl, rfl, rfl, rfl, rfl⟩
  · exact ⟨rfl, rfl, rfl, rfl, rfl⟩

theorem replyRequest_state (s : Server) (c : Connection) (type : UInt16) (state : RequestState) :
    (s.replyRequest c type state).2.state = c.state ∧ (s.replyRequest c type state).2.num = c.num ∧
      (s.replyRequest c type state).1.connections = s.connections ∧
      (s.replyRequest c type state).1.creations = s.creations ∧ (s.replyRequest c type state).1.out = s.out := by
  unfold replyRequest
  split
  · exact ⟨rfl, rfl, rfl, rfl, rfl⟩
  · exact ⟨rfl, rfl, rfl, rfl, rfl⟩

/-- **A packet for a connection** keeps the traces in turn, unless it is a late `PT_CONNECTED`. -/
theorem InTurn.handleConnectionPacket (h : s.InTurn) (env : Env) (hc : c ∈ s.connections) (ip : InPac)
    (hl : ip.pac.type = ptConnected → ptDisconnect ∉ s.trace c.num) : (s.handleConnectionPacket env c ip).InTurn := by
  have hf := h.follows c hc
  have hrel : (s.release ip).InTurn := h.congr rfl rfl fun n => trace_congr rfl n
  unfold Server.handleConnectionPacket
  dsimp only
  split
  · next ht =>
    obtain ⟨h₁, h₂, h₃, h₄, h₅⟩ := replyRequest_state (s.release ip) { c with state := csConnected } rtOpen .ok
    apply hrel.put_silent hc h₃ h₄ h₅ h₂
    rw [h₁]
    exact hf.any (hl ht) csConnected
  split
  · unfold destroyConnection
    rw [if_neg (show ¬csDisconnected < csDisconnecting by decide)]
    exact hrel.remove hc rfl rfl (fun n _ => trace_congr rfl n) (hrel.conforms c.num)
  split
  · obtain ⟨h₁, h₂, h₃, h₄, h₅⟩ := replyRequest_state s { c with state := csNoHandler } rtOpen .noHandler
    apply h.put_silent hc h₃ h₄ h₅ h₂
    rw [h₁]
    exact hf.rest (.inr (.inr rfl))
  split
  · exact hrel
  · obtain ⟨h₁, h₂, h₃, h₄, h₅⟩ := pushToClient_state { s with handed := s.handed ++ [(c.num, ip)] }
      { c with packetQueue := c.packetQueue ++ [ip] }
    apply h.put_silent hc h₃ h₄ h₅ h₂
    rw [h₁]
    exact hf

/-- **A request for a connection** keeps the traces in turn, unless it is another `APB_RT_OPEN`. -/
theorem InTurn.handleClientRequest (h : s.InTurn) (env : Env) (hc : c ∈ s.connections) (req : Request)
    (hl : req.type ≠ rtOpen) : (s.handleClientRequest env c req).InTurn := by
  have hf := h.follows c hc
  obtain ⟨r, -, ⟨ho, -⟩ | ⟨-, he⟩ | ⟨-, he⟩ | ⟨-, h₁, h₂, h₃, he⟩ | he⟩ := handleClientRequest_cases env s c req
  · exact absurd ho hl
  · obtain ⟨n, os, state, hd, hos⟩ := disconnect_eq env s c
    rw [he, hd]
    have hp : (Server.put { s with allocs := n, out := s.out ++ os } { c with state := state }).InTurn := by
      obtain ⟨rfl, rfl⟩ | ⟨hlt, rfl, rfl⟩ := hos
      · exact h.put_silent hc rfl rfl (List.append_nil _) rfl hf
      · exact h.put_send hc n rfl rfl (hf.disconnect hlt)
    exact hp.congr rfl rfl fun m => trace_congr rfl m
  · rw [he]
    obtain ⟨h₁, h₂, h₃, h₄, h₅⟩ := pushToClient_state s { c with reqQueue := c.reqQueue ++ [r] }
    apply h.put_silent hc h₃ h₄ h₅ h₂
    rw [h₁]
    exact hf
  · obtain ⟨os, hs, hos⟩ := send_eq env s ((sizeofPacket + req.length.toNat) % 65536)
      ⟨some c.num, c.id, ptData, req.data.take req.length.toNat⟩
    rw [he, hs]
    obtain ⟨rfl, -⟩ | ⟨rfl, -⟩ := hos
    · exact h.congr rfl rfl fun n => trace_congr (List.append_nil _) n
    · exact (h.send hc (s.allocs + 1) rfl (hf.data h₁ h₂ h₃)).congr rfl rfl fun n => trace_congr rfl n
  · rw [he]
    exact h.congr rfl rfl fun n => trace_congr rfl n

/-- A new connection sends its `PT_CONNECT`. -/
theorem handleClientRequest_open (hp : ∀ n, env.packet n = true) (s : Server) (c : Connection) (req : Request)
    (hr : req.type = rtOpen) : ∃ o c', o.cnn = some c.num ∧ o.type = ptConnect ∧ c'.num = c.num ∧
      s.handleClientRequest env c req = Server.put { s with allocs := s.allocs + 1, out := s.out ++ [o] } c' := by
  unfold Server.handleClientRequest
  rw [if_pos hr]
  unfold cnnConnect
  rw [send_of_packet (by decide) (by decide) (hp _)]
  refine ⟨_, _, ?_, ?_, ?_, rfl⟩
  · rfl
  · rfl
  · rfl

/-- **A connection is made.** -/
theorem InTurn.withNew (h : s.InTurn) (hp : ∀ n, env.packet n = true) (state : ConnectionState) (req : Request)
    (hr : req.type = rtOpen) : ((s.withNew state).handleClientRequest env (s.newConnection state) req).InTurn := by
  obtain ⟨o, c', ho, hot, hnum, he⟩ := handleClientRequest_open hp (s.withNew state) (s.newConnection state) req hr
  have hnew : s.trace s.creations = [] := h.fresh _ (Nat.le_refl _)
  have ha := accounted_handleClientRequest env (accounted_withNew h.distinct state).distinct
    (List.mem_append_right _ (List.mem_singleton.2 rfl)) req
  rw [he] at ha ⊢
  generalize hs' : Server.put _ c' = s' at ha ⊢
  have ht : s'.trace s.creations = s.trace s.creations ++ [o.type] ∧
      ∀ n, n ≠ s.creations → s'.trace n = s.trace n := by
    rw [← hs']
    exact trace_self (c := s.newConnection state) rfl ho
  rw [hnew, hot, List.nil_append] at ht
  have hf : Follows [ptConnect] c'.state := .inl ⟨0, rfl⟩
  refine ⟨ha.distinct, fun b hb => ?_, fun n => ?_, fun n hn => ?_⟩
  · rw [← hs'] at hb
    rcases Keyed.mem_put hb with rfl | ⟨hb, hne⟩
    · rw [hnum, show (s.newConnection state).num = s.creations from rfl, ht.1]
      exact hf
    · rw [hnum] at hne
      rcases List.mem_append.1 hb with hb | hb
      · rw [ht.2 b.num hne]
        exact h.follows b hb
      · rw [List.mem_singleton.1 hb] at hne
        exact absurd rfl hne
  · by_cases hn : n = s.creations
    · rw [hn, ht.1]
      exact hf.conforms
    · rw [ht.2 n hn]
      exact h.conforms n
  · rw [← hs'] at hn
    have hlt : s.creations + 1 ≤ n := hn
    rw [ht.2 n (by omega)]
    exact h.fresh n (by omega)

/-! ## Runs -/

/-- No client opens a connection that it has, and no `PT_CONNECTED` comes after a `PT_DISCONNECT`. -/
def Orderly (s : Server) : Event → Prop
  | .request req => req.type = rtOpen → s.target req.connId = none
  | .packet _ pac => pac.type = ptConnected → ∀ c ∈ s.target pac.connId, ptDisconnect ∉ s.trace c.num
  | _ => True

instance (s : Server) : (e : Event) → Decidable (Orderly s e)
  | .run _ => .isTrue trivial
  | .wake _ => .isTrue trivial
  | .timer _ => .isTrue trivial
  | .request _ => inferInstanceAs (Decidable (_ → _))
  | .requestsDone => .isTrue trivial
  | .packet .. => inferInstanceAs (Decidable (_ → ∀ _ ∈ _, _))
  | .packetsDone => .isTrue trivial

theorem InTurn.checkRequestTimeouts (h : s.InTurn) : s.checkRequestTimeouts.InTurn := by
  unfold Server.checkRequestTimeouts
  apply Keyed.foldl_inv connections InTurn _ h.distinct.nodup (fun _ hb => hb) h
  intro t c ht hc
  refine ⟨?_, fun b hb hne => Keyed.mem_put_of_ne hb hne⟩
  exact ht.put_silent hc rfl rfl rfl rfl (ht.follows c hc)

theorem InTurn.handleTimer (h : s.InTurn) (env : Env) : (s.handleTimer env).InTurn := by
  unfold Server.handleTimer
  dsimp only
  split
  · exact h.congr rfl rfl fun n => trace_congr rfl n
  · have hq := h.quiet ((quiet_checkPing s).trans (quiet_nextPing env _))
    exact hq.checkRequestTimeouts.congr rfl rfl fun n => trace_congr rfl n
  · exact h.congr rfl rfl fun n => trace_congr rfl n
  · exact h.congr rfl rfl fun n => trace_congr rfl n

/-- **A packet** keeps the traces in turn, unless it is a late `PT_CONNECTED`. -/
theorem InTurn.handlePacket (h : s.InTurn) (env : Env) (ip : InPac)
    (hl : ip.pac.type = ptConnected → ∀ c ∈ s.target ip.pac.connId, ptDisconnect ∉ s.trace c.num) :
    (s.handlePacket env ip).InTurn := by
  have hh : (s.hear ip).InTurn := h.congr rfl rfl fun n => trace_congr rfl n
  have hn := quiet_noteId env (s.hear ip) ip
  have ht := hh.quiet hn
  have htarget : ((s.hear ip).noteId env ip).target ip.pac.connId = s.target ip.pac.connId :=
    target_congr hn.connections _
  have htrace : ∀ n, ((s.hear ip).noteId env ip).trace n = s.trace n := fun n => (hn.trace n).trans (trace_congr rfl n)
  rw [handlePacket_eq]
  generalize (s.hear ip).noteId env ip = t at ht htarget htrace ⊢
  unfold dispatch
  by_cases h₀ : ip.pac.connId = defaultConnection
  · obtain ⟨t', hq, he⟩ := handleControlPacket_eq env t ip
    rw [if_pos h₀, he]
    exact (ht.quiet hq).congr rfl rfl fun n => trace_congr rfl n
  · rw [if_neg h₀]
    cases hf : t.findConnection ip.pac.connId with
    | none =>
      have hq := quiet_send env t sizeofPacket ⟨none, ip.pac.connId, ptNoConnection, []⟩ rfl
      exact (ht.quiet hq).congr rfl rfl fun n => trace_congr rfl n
    | some c =>
      apply ht.handleConnectionPacket env (mem_of_findConnection hf)
      intro hconn
      rw [htrace]
      apply hl hconn
      rw [← htarget, target, if_neg h₀, hf]
      rfl

/-- **What an event does to the traces.** -/
theorem InTurn.step (h : s.InTurn) (hp : ∀ n, env.packet n = true) (ho : s.Orderly e)
    (he : Server.step env s e = some s') : s'.InTurn := by
  cases e with
  | run ok =>
    cases he
    exact h.quiet (quiet_runStep env s ok)
  | wake brk =>
    cases he
    split
    · exact h.congr rfl rfl fun n => trace_congr rfl n
    · exact h.congr rfl rfl fun n => trace_congr rfl n
  | timer fired =>
    cases he
    cases fired with
    | false => exact h.congr rfl rfl fun n => trace_congr rfl n
    | true => exact (h.handleTimer env).congr rfl rfl fun n => trace_congr rfl n
  | request req =>
    have h' : ({ s with taken := s.taken + 1 } : Server).InTurn := h.congr rfl rfl fun n => trace_congr rfl n
    obtain ⟨r, -, ⟨t, ht, rfl⟩ | ⟨c, hc, rfl, hr⟩ | ⟨-, hr, state, -, rfl, hr'⟩⟩ := receiveRequest_cases he
    · exact (h'.quiet (quiet_of_quit ht)).congr rfl rfl fun n => trace_congr rfl n
    · have hc' : s.target req.connId = some c := hc
      apply h'.handleClientRequest env (mem_of_target hc) r
      intro hopen
      rw [ho (hr.symm.trans hopen)] at hc'
      cases hc'
    · exact h'.withNew hp state r (hr'.trans hr)
  | requestsDone =>
    cases he
    exact h.congr rfl rfl fun n => trace_congr rfl n
  | packet seq pac =>
    cases he
    have h' : ({ s with dequeued := s.dequeued + 1 } : Server).InTurn := h.congr rfl rfl fun n => trace_congr rfl n
    exact h'.handlePacket env ⟨s.dequeued, seq, pac⟩ ho
  | packetsDone =>
    cases he
    exact h.congr rfl rfl fun n => trace_congr rfl n

/-- The traces stay in turn when the server is taken down. -/
theorem InTurn.destroyServer (h : s.InTurn) (env : Env) : (s.destroyServer env).InTurn := by
  unfold Server.destroyServer
  have hn : (s.connections.reverse.map Connection.num).Nodup := by
    rw [List.map_reverse]
    exact List.nodup_reverse.2 h.distinct.nodup
  apply Keyed.foldl_inv connections InTurn _ hn (fun _ hb => List.mem_reverse.1 hb) h
  intro t c ht hc
  obtain ⟨n, os, state, hd, hos⟩ := disconnect_eq env t c
  have hout : (t.destroyConnection env c).out = t.out ++ os := by
    unfold destroyConnection
    rw [hd]
  have hconn : (t.destroyConnection env c).connections = Keyed.remove Connection.num t.connections c.num := by
    unfold destroyConnection
    rw [hd]
  have hcr : (t.destroyConnection env c).creations = t.creations := by
    unfold destroyConnection
    rw [hd]
  have hf := ht.follows c hc
  refine ⟨?_, fun b hb hne => hconn ▸ Keyed.mem_remove.2 ⟨hb, hne⟩⟩
  obtain ⟨rfl, -⟩ | ⟨hlt, rfl, -⟩ := hos
  · rw [List.append_nil] at hout
    apply ht.remove hc hconn hcr (fun m _ => trace_congr hout m)
    rw [trace_congr hout]
    exact hf.conforms
  · have hp := trace_self hout rfl
    apply ht.remove hc hconn hcr hp.2
    rw [hp.1]
    exact (hf.disconnect hlt).conforms

theorem inTurn_start : start.InTurn :=
  ⟨distinct_start, fun _ h => (by cases h), fun _ => ⟨0, List.nil_prefix⟩, fun _ _ => rfl⟩

/-- **Connections follow the protocol**, in every run in which packets can be had, no client opens a connection that it
has, and no `PT_CONNECTED` comes after a `PT_DISCONNECT`. -/
theorem connections_conform (env : Env) (hp : ∀ n, env.packet n = true) {es : List Event} {x : Server}
    (h : Along Orderly (step env) start es) (hx : runs (step env) start es = some x) :
    (∀ n, Conforms (x.trace n)) ∧ (∀ n, Conforms ((x.destroyServer env).trace n)) ∧
      ∀ c ∈ x.connections, ptDisconnect ∈ x.trace c.num → c.state ≠ csConnecting ∧ c.state ≠ csConnected := by
  have hI : x.InTurn := runs_inv InTurn (fun _ _ _ hI ho he => hI.step hp ho he) inTurn_start h hx
  refine ⟨hI.conforms, (hI.destroyServer env).conforms, fun c hc hm => ?_⟩
  obtain ⟨k, hk⟩ | ⟨-, hs | hs | hs⟩ := hI.follows c hc
  · rw [hk] at hm
    exact absurd hm (not_mem_opened k)
  · rw [hs]
    decide
  · rw [hs]
    decide
  · rw [hs]
    decide

/-- A client opens a connection and closes it before the Pi's answer, and writes when that has come. -/
def crossed : List Event :=
  greeting ++ pass [ask rtOpen 0] [] ++ pass [ask rtClose 1] [bare 2 ptConnected 1] ++ pass [ask rtWrite 1] []

theorem connected_after_disconnect : (∀ n, plenty.packet n = true) ∧ Along Enabled (step plenty) start crossed ∧
    ∃ x : Server, runs (step plenty) start crossed = some x ∧ x.trace 0 = [ptConnect, ptDisconnect, ptData] ∧
      ¬Conforms (x.trace 0) := by
  refine ⟨fun _ => rfl, by decide +kernel, ?_⟩
  have h : (runs (step plenty) start crossed).map (fun x => x.trace 0) =
      some [ptConnect, ptDisconnect, ptData] := by
    decide +kernel
  obtain ⟨x, hx, he⟩ := Option.map_eq_some_iff.1 h
  refine ⟨x, hx, he, fun hc => ?_⟩
  -- after the `PT_DISCONNECT` of a conforming trace comes nothing
  rw [he] at hc
  obtain ⟨k, hk⟩ := hc
  cases k with
  | zero => exact absurd hk.length_le (by decide)
  | succ k =>
    rw [List.replicate_succ, List.cons_append, List.cons_prefix_cons, List.cons_prefix_cons] at hk
    exact absurd hk.2.1 (by decide)

theorem connections_conform_closed : ∃ x : Server,
    runs (step plenty) start (greeting ++ pass [ask rtOpen 0] [bare 2 ptConnected 1] ++
      pass [ask rtWrite 1, ask rtClose 1] [bare 3 ptDisconnected 1]) = some x ∧ ∀ n, Conforms (x.trace n) := by
  obtain ⟨x, hx⟩ : ∃ x, runs (step plenty) start (greeting ++ pass [ask rtOpen 0] [bare 2 ptConnected 1] ++
      pass [ask rtWrite 1, ask rtClose 1] [bare 3 ptDisconnected 1]) = some x :=
    Option.isSome_iff_exists.1 (by decide +kernel)
  exact ⟨x, hx, (connections_conform plenty (fun _ => rfl) (by decide +kernel) hx).1⟩

end AmiPiBorg.Server
