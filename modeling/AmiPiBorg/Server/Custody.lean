import AmiPiBorg.Server.Readers

/-!
# Where packets go

A packet that the server has taken stays what it is: it waits on the queue of a connection, or it is released. With every
event, what waits and what is released has waited before, or has come in with the event (`custody_step`).
-/

set_option autoImplicit false

namespace AmiPiBorg.Server

open ProgLib

variable {env : Env} {s s' t : Server} {c c' : Connection} {ip : InPac} {req : Request} {e : Event} {es : List Event}
  {new : List InPac}

/-- The packet waits on a connection. -/
def Queued (s : Server) (ip : InPac) : Prop := ∃ c ∈ s.connections, ip ∈ c.packetQueue

/-- What waits in `s'`, and what is released on the way from `s`, has waited in `s` or is new. -/
structure Custody (s : Server) (new : List InPac) (s' : Server) : Prop where
  released : ∃ rs, s'.released = s.released ++ rs ∧ ∀ ip ∈ rs, ip ∈ new ∨ s.Queued ip
  queued : ∀ ip, s'.Queued ip → ip ∈ new ∨ s.Queued ip

theorem Custody.of_eq (h₁ : s'.released = s.released) (h₂ : s'.connections = s.connections) : Custody s new s' := by
  refine ⟨⟨[], h₁.trans (List.append_nil _).symm, fun _ h => absurd h List.not_mem_nil⟩, fun ip h => .inr ?_⟩
  unfold Queued at h ⊢
  rwa [h₂] at h

theorem Custody.refl (s : Server) : Custody s new s := .of_eq rfl rfl

theorem Quiet.custody (h : Quiet s s') : Custody s new s' := .of_eq h.released h.connections

theorem Custody.trans (h : Custody s new s') (h' : Custody s' new t) : Custody s new t := by
  obtain ⟨rs, hr, hrs⟩ := h.released
  obtain ⟨rs', hr', hrs'⟩ := h'.released
  refine ⟨⟨rs ++ rs', by rw [hr', hr, List.append_assoc], fun ip hip => ?_⟩, fun ip hip => ?_⟩
  · rcases List.mem_append.1 hip with hip | hip
    · exact hrs ip hip
    · exact (hrs' ip hip).elim .inl (h.queued ip)
  · exact (h'.queued ip hip).elim .inl (h.queued ip)

theorem custody_release (s : Server) (ip : InPac) : Custody s [ip] (s.release ip) :=
  ⟨⟨[ip], rfl, fun _ h => .inl h⟩, fun _ h => .inr h⟩

/-- A connection is written back whose packets have waited or are new. -/
theorem custody_put (hconn : s'.connections = s.connections)
    (hrel : ∃ rs, s'.released = s.released ++ rs ∧ ∀ ip ∈ rs, ip ∈ new ∨ s.Queued ip)
    (hq : ∀ ip ∈ c'.packetQueue, ip ∈ new ∨ s.Queued ip) : Custody s new (s'.put c') := by
  refine ⟨hrel, fun ip ⟨b, hb, hip⟩ => ?_⟩
  rcases Keyed.mem_put hb with rfl | ⟨hb, -⟩
  · exact hq ip hip
  · exact .inr ⟨b, hconn ▸ hb, hip⟩

theorem pushToClient_custody (s : Server) (c : Connection) : (s.pushToClient c).1.connections = s.connections ∧
    (∃ rs, (s.pushToClient c).1.released = s.released ++ rs ∧ ∀ ip ∈ rs, ip ∈ c.packetQueue) ∧
    ∀ ip ∈ (s.pushToClient c).2.packetQueue, ip ∈ c.packetQueue := by
  unfold pushToClient
  split
  · exact ⟨rfl, ⟨[], (List.append_nil _).symm, fun _ h => absurd h List.not_mem_nil⟩, fun _ h => h⟩
  · have hfirst : (deliver c.packetQueue c.reqQueue).released <+: c.packetQueue := ⟨_, deliver_packets ..⟩
    exact ⟨rfl, ⟨_, rfl, fun _ hip => hfirst.subset hip⟩, fun _ hip => (deliver_suffix ..).subset hip⟩

/-- A push, written back. -/
theorem custody_push (hq : ∀ ip ∈ c.packetQueue, ip ∈ new ∨ s.Queued ip) :
    Custody s new ((s.pushToClient c).1.put (s.pushToClient c).2) := by
  obtain ⟨hconn, ⟨rs, hr, hrs⟩, hqueue⟩ := pushToClient_custody s c
  exact custody_put hconn ⟨rs, hr, fun ip hip => hq ip (hrs ip hip)⟩ fun ip hip => hq ip (hqueue ip hip)

theorem replyRequest_custody (s : Server) (c : Connection) (type : UInt16) (state : RequestState) :
    (s.replyRequest c type state).1.connections = s.connections ∧
      (s.replyRequest c type state).1.released = s.released ∧
      (s.replyRequest c type state).2.packetQueue = c.packetQueue := by
  unfold replyRequest
  split <;> exact ⟨rfl, rfl, rfl⟩

theorem disconnect_custody (env : Env) (s : Server) (c : Connection) :
    (if c.state < csDisconnecting then s.cnnDisconnect env c else (s, c)).1.connections = s.connections ∧
      (if c.state < csDisconnecting then s.cnnDisconnect env c else (s, c)).1.released = s.released ∧
      (if c.state < csDisconnecting then s.cnnDisconnect env c else (s, c)).2.packetQueue = c.packetQueue := by
  obtain ⟨n, os, state, h, -⟩ := disconnect_eq env s c
  rw [h]
  exact ⟨rfl, rfl, rfl⟩

/-! ## Packets -/

theorem custody_handleConnectionPacket (env : Env) (hc : c ∈ s.connections) (ip : InPac) :
    Custody s [ip] (s.handleConnectionPacket env c ip) := by
  have hq : ∀ q ∈ c.packetQueue, q ∈ [ip] ∨ s.Queued q := fun q hq => .inr ⟨c, hc, hq⟩
  have hrel : ∃ rs, (s.release ip).released = s.released ++ rs ∧ ∀ q ∈ rs, q ∈ [ip] ∨ s.Queued q :=
    (custody_release s ip).released
  unfold handleConnectionPacket
  dsimp only
  split
  · obtain ⟨h₁, h₂, h₃⟩ := replyRequest_custody (s.release ip) { c with state := csConnected } rtOpen .ok
    exact custody_put h₁ (by rw [h₂]; exact hrel) (by rw [h₃]; exact hq)
  split
  · unfold destroyConnection
    obtain ⟨h₁, h₂, h₃⟩ := disconnect_custody env (s.release ip) { c with state := csDisconnected }
    refine ⟨⟨[ip] ++ c.packetQueue, ?_, fun q hm => ?_⟩, fun q ⟨b, hb, hm⟩ => .inr ⟨b, ?_, hm⟩⟩
    · dsimp only
      rw [h₂, h₃, ← List.append_assoc]
      rfl
    · exact (List.mem_append.1 hm).elim .inl (hq q)
    · have hb' := (Keyed.mem_remove.1 hb).1
      rwa [h₁] at hb'
  split
  · obtain ⟨h₁, h₂, h₃⟩ := replyRequest_custody s { c with state := csNoHandler } rtOpen .noHandler
    exact custody_put h₁ ⟨[], by rw [h₂, List.append_nil], fun _ h => absurd h List.not_mem_nil⟩ (by rw [h₃]; exact hq)
  split
  · exact custody_release s ip
  · have hh : Custody s [ip] { s with handed := s.handed ++ [(c.num, ip)] } := .of_eq rfl rfl
    refine hh.trans (custody_push fun q hm => ?_)
    rcases List.mem_append.1 hm with hm | hm
    · exact hq q hm
    · exact .inl hm

theorem custody_handlePacket (env : Env) (s : Server) (ip : InPac) : Custody s [ip] (s.handlePacket env ip) := by
  have hh : Custody s [ip] (s.hear ip) := .of_eq rfl rfl
  rw [handlePacket_eq]
  refine (hh.trans (quiet_noteId env _ ip).custody).trans ?_
  generalize (s.hear ip).noteId env ip = t
  unfold dispatch
  split
  · obtain ⟨t', hq, he⟩ := handleControlPacket_eq env t ip
    rw [he]
    exact hq.custody.trans (custody_release t' ip)
  · split
    · have hq := quiet_send env t sizeofPacket ⟨none, ip.pac.connId, ptNoConnection, []⟩ rfl
      exact hq.custody.trans (custody_release _ ip)
    · next c hc => exact custody_handleConnectionPacket env (mem_of_findConnection hc) ip

/-! ## Requests and ticks -/

theorem custody_handleClientRequest (env : Env) (hc : c ∈ s.connections) (req : Request) :
    Custody s new (s.handleClientRequest env c req) := by
  have hq : ∀ q ∈ c.packetQueue, q ∈ new ∨ s.Queued q := fun q hq => .inr ⟨c, hc, hq⟩
  have hnone : ∃ rs, s.released = s.released ++ rs ∧ ∀ q ∈ rs, q ∈ new ∨ s.Queued q :=
    ⟨[], (List.append_nil _).symm, fun _ h => absurd h List.not_mem_nil⟩
  obtain ⟨r, -, ⟨-, h⟩ | ⟨-, h⟩ | ⟨-, h⟩ | ⟨-, -, -, -, h⟩ | h⟩ := handleClientRequest_cases env s c req
  · rw [h]
    obtain ⟨os, state, hcnn, -⟩ := cnnConnect_eq env s
      { c with handlerId := req.handlerId, reqQueue := c.reqQueue ++ [r] }
    rw [hcnn]
    exact custody_put rfl hnone hq
  · rw [h]
    obtain ⟨h₁, h₂, h₃⟩ := disconnect_custody env s c
    exact (custody_put h₁ (by rw [h₂]; exact hnone) (by rw [h₃]; exact hq)).trans (.of_eq rfl rfl)
  · rw [h]
    exact custody_push hq
  · rw [h]
    obtain ⟨os, hs, -⟩ := send_eq env s ((sizeofPacket + req.length.toNat) % 65536)
      ⟨some c.num, c.id, ptData, req.data.take req.length.toNat⟩
    rw [hs]
    exact .of_eq rfl rfl
  · rw [h]
    exact .of_eq rfl rfl

theorem custody_receiveRequest (h : s.receiveRequest env req = some s') : Custody s new s' := by
  obtain ⟨r, -, ⟨t, ht, rfl⟩ | ⟨c, hc, rfl, -⟩ | ⟨-, -, state, -, rfl, -⟩⟩ := receiveRequest_cases h
  · exact (quiet_of_quit ht).custody.trans (.of_eq rfl rfl)
  · exact custody_handleClientRequest env (mem_of_target hc) r
  · have hnew : Custody s new (s.withNew state) := by
      refine ⟨⟨[], (List.append_nil _).symm, fun _ h => absurd h List.not_mem_nil⟩, fun ip ⟨b, hb, hip⟩ => .inr ?_⟩
      rcases List.mem_append.1 hb with hb | hb
      · exact ⟨b, hb, hip⟩
      · rw [List.mem_singleton.1 hb] at hip
        exact absurd hip List.not_mem_nil
    exact hnew.trans (custody_handleClientRequest env (List.mem_append_right _ (List.mem_singleton_self _)) r)

theorem custody_checkRequestTimeouts (s : Server) : Custody s new s.checkRequestTimeouts := by
  have hfold : ∀ (l : List Connection) (t : Server), (∀ c ∈ l, ∀ ip ∈ c.packetQueue, s.Queued ip) →
      Custody s new t → Custody s new (l.foldl cnnCheckRequestTimeouts t) := by
    intro l
    induction l with
    | nil => exact fun t _ ht => ht
    | cons c l ih =>
      intro t hl ht
      refine ih _ (fun b hb => hl b (List.mem_cons_of_mem _ hb)) ⟨ht.released, fun ip ⟨b, hb, hip⟩ => ?_⟩
      rcases Keyed.mem_put hb with rfl | ⟨hb, -⟩
      · exact .inr (hl c List.mem_cons_self ip hip)
      · exact ht.queued ip ⟨b, hb, hip⟩
  exact hfold s.connections s (fun c hc ip hip => ⟨c, hc, hip⟩) (.refl s)

theorem custody_handleTimer (env : Env) (s : Server) : Custody s new (s.handleTimer env) := by
  unfold handleTimer
  dsimp only
  split
  · exact .of_eq rfl rfl
  · have h : Custody s new (s.checkPing.nextPing env) :=
      ((quiet_checkPing s).trans (quiet_nextPing env s.checkPing)).custody
    exact (h.trans (custody_checkRequestTimeouts _)).trans (.of_eq rfl rfl)
  · exact .of_eq rfl rfl
  · exact .of_eq rfl rfl

/-! ## Steps -/

/-- The packet that comes in with an event. -/
def newPacket (s : Server) : Event → List InPac
  | .packet seq pac => [⟨s.dequeued, seq, pac⟩]
  | _ => []

/-- **What an event does to the packets.** -/
theorem custody_step (hs : Server.step env s e = some s') : Custody s (s.newPacket e) s' := by
  cases e with
  | run ok =>
    cases hs
    exact (quiet_runStep env s ok).custody
  | wake brk =>
    cases hs
    cases brk <;> exact .of_eq rfl rfl
  | timer fired =>
    cases hs
    cases fired with
    | false => exact .of_eq rfl rfl
    | true => exact (custody_handleTimer env s).trans (.of_eq rfl rfl)
  | request req =>
    have ht : Custody s [] { s with taken := s.taken + 1 } := .of_eq rfl rfl
    exact ht.trans (custody_receiveRequest hs)
  | requestsDone =>
    cases hs
    exact .of_eq rfl rfl
  | packet seq pac =>
    cases hs
    have ht : Custody s [⟨s.dequeued, seq, pac⟩] { s with dequeued := s.dequeued + 1 } := .of_eq rfl rfl
    exact ht.trans (custody_handlePacket env { s with dequeued := s.dequeued + 1 } ⟨s.dequeued, seq, pac⟩)
  | packetsDone =>
    cases hs
    exact .of_eq rfl rfl

theorem arrived_newPacket (s : Server) (e : Event) : arrived [e] = (s.newPacket e).map InPac.pac := by
  cases e <;> rfl

/-! ## Stock -/

/-- No packet is there twice. -/
structure Stocked (s : Server) : Prop where
  distinct : s.Distinct
  nodup : s.packets.Nodup
  lt : ∀ n ∈ s.packets, n < s.dequeued

theorem Stocked.step (h : s.Stocked) (hs : Server.step env s e = some s') : s'.Stocked := by
  have hb := booked_step h.distinct hs
  have hnew : (s.arriving e).2 = [] ∨ (s.arriving e).2 = [s.dequeued] := by
    cases e with
    | packet seq pac => exact .inr rfl
    | _ => exact .inl rfl
  have hmem : ∀ n ∈ s'.packets, n ∈ (s.arriving e).2 ++ s.packets := fun n hn =>
    hb.packets.subset (List.mem_append_left _ hn)
  have hnodup : ((s.arriving e).2 ++ s.packets).Nodup := by
    rcases hnew with hn | hn
    · rw [hn]
      exact h.nodup
    · rw [hn]
      exact List.nodup_cons.2 ⟨fun hm => Nat.lt_irrefl _ (h.lt _ hm), h.nodup⟩
  refine ⟨hb.distinct, (hb.packets.nodup_iff.2 hnodup).sublist (List.sublist_append_left _ _), fun n hn => ?_⟩
  rw [hb.dequeued]
  rcases List.mem_append.1 (hmem n hn) with hn | hn
  · rcases hnew with he | he
    · rw [he] at hn
      exact absurd hn List.not_mem_nil
    · rw [he] at hn ⊢
      rw [List.mem_singleton.1 hn]
      exact Nat.lt_succ_self _
  · exact (h.lt n hn).trans_le (Nat.le_add_right _ _)

theorem stocked_run {x : Server} (hx : runs (step env) start es = some x) : x.Stocked := by
  refine runs_inv_all Stocked (fun _ _ _ h hs => h.step hs) ?_ hx
  exact ⟨distinct_start, List.nodup_nil, fun _ h => absurd h List.not_mem_nil⟩

/-- What waits was not released. -/
theorem Stocked.not_released (h : s.Stocked) (hq : s.Queued ip) : ip ∉ s.released := by
  intro hr
  obtain ⟨c, hc, hip⟩ := hq
  have hn := (List.nodup_append.1 h.nodup).2.2 ip.num (List.mem_map_of_mem hr)
  exact hn ip.num (List.mem_flatMap.2 ⟨c, hc, List.mem_map_of_mem hip⟩) rfl

end AmiPiBorg.Server
