import AmiPiBorg.Server.Moves

/-!
# Writes go out in order

The data that the server has sent is that of the writes that it has answered `APB_RS_OK`, in the order in which the
clients made them, each once and with all its bytes (`writes_in_order`). A write never waits on a connection
(`writeless_step`), so only the request that a client has just made can be answered as a write, and everything else
that happens is `Dataless`.
-/

set_option autoImplicit false

namespace AmiPiBorg.Server

open ProgLib

variable {env : Env} {s s' t : Server} {c c' : Connection} {ip : InPac} {req : Request} {e : Event} {es : List Event}
  {rs : List Request} {os : List OutPac}

/-! ## Data and writes -/

/-- What the packets with data carry, and on which connection. -/
def dataOf (os : List OutPac) : List (UInt16 × List UInt8) :=
  (os.filter fun o => o.type = ptData).map fun o => (o.connId, o.data)

/-- The request is a write that was answered `APB_RS_OK`. -/
def Written (r : Request) : Prop := r.type = rtWrite ∧ r.state = .ok

instance (r : Request) : Decidable (Written r) := inferInstanceAs (Decidable (_ ∧ _))

/-- What the writes among the requests have written. -/
def writesOf (rs : List Request) : List (UInt16 × List UInt8) :=
  (rs.filter fun r => Written r).map fun r => (r.connId, r.data.take r.length.toNat)

@[simp] theorem dataOf_append (os os' : List OutPac) : dataOf (os ++ os') = dataOf os ++ dataOf os' := by
  simp [dataOf]

@[simp] theorem writesOf_append (rs rs' : List Request) : writesOf (rs ++ rs') = writesOf rs ++ writesOf rs' := by
  simp [writesOf]

theorem dataOf_eq_nil (h : ∀ o ∈ os, o.type ≠ ptData) : dataOf os = [] := by
  simpa [dataOf] using h

theorem writesOf_eq_nil (h : rs.filter (fun r => Written r) = []) : writesOf rs = [] := by
  rw [writesOf, h, List.map_nil]

theorem filter_written_eq_nil (h : ∀ r ∈ rs, r.type ≠ rtWrite ∨ r.state ≠ .ok) :
    rs.filter (fun r => Written r) = [] := by
  refine List.filter_eq_nil_iff.2 fun r hr => ?_
  rw [decide_eq_true_eq, Written, not_and_or]
  exact h r hr

/-! ## What has nothing to do with writes -/

/-- No data is sent, and no write is answered with success. -/
def Dataless (s s' : Server) : Prop :=
  ∃ os rs, s'.out = s.out ++ os ∧ s'.replied = s.replied ++ rs ∧ (∀ o ∈ os, o.type ≠ ptData) ∧
    ∀ r ∈ rs, r.type ≠ rtWrite ∨ r.state ≠ .ok

theorem Dataless.of_eq (h₁ : s'.out = s.out) (h₂ : s'.replied = s.replied) : Dataless s s' :=
  ⟨[], [], h₁.trans (List.append_nil _).symm, h₂.trans (List.append_nil _).symm, nofun, nofun⟩

theorem Dataless.refl (s : Server) : Dataless s s := .of_eq rfl rfl

theorem Dataless.trans (h : Dataless s s') (h' : Dataless s' t) : Dataless s t := by
  obtain ⟨os, rs, ho, hr, hos, hrs⟩ := h
  obtain ⟨os', rs', ho', hr', hos', hrs'⟩ := h'
  refine ⟨os ++ os', rs ++ rs', ?_, ?_, fun o hm => ?_, fun r hm => ?_⟩
  · rw [ho', ho, List.append_assoc]
  · rw [hr', hr, List.append_assoc]
  · exact (List.mem_append.1 hm).elim (hos o) (hos' o)
  · exact (List.mem_append.1 hm).elim (hrs r) (hrs' r)

/-- The rest of the server may change. -/
theorem Dataless.congr (h : Dataless s s') (h₁ : t.out = s'.out) (h₂ : t.replied = s'.replied) : Dataless s t :=
  h.trans (.of_eq h₁ h₂)

theorem dataless_reply {r : Request} (h : r.type ≠ rtWrite ∨ r.state ≠ .ok) : Dataless s (s.reply r) :=
  ⟨[], [r], (List.append_nil _).symm, rfl, nofun, fun q hq => by rwa [List.mem_singleton.1 hq]⟩

theorem dataless_send (env : Env) (s : Server) (length : Nat) (o : OutPac) (ho : o.type ≠ ptData) :
    Dataless s (s.send env length o).1 := by
  obtain ⟨os, h, hos⟩ := send_eq env s length o
  rw [h]
  refine ⟨os, [], rfl, (List.append_nil _).symm, fun q hq => ?_, nofun⟩
  obtain ⟨rfl, -⟩ | ⟨rfl, -⟩ := hos
  · cases hq
  · rwa [List.mem_singleton.1 hq]

theorem dataless_sendPing (env : Env) (s : Server) : Dataless s (s.sendPing env) := by
  have h := dataless_send env s sizeofPacket ⟨none, defaultConnection, ptPing, []⟩ (by decide)
  unfold sendPing
  dsimp only
  split
  · exact h.congr rfl rfl
  · exact h

theorem dataless_disconnect (env : Env) (s : Server) (c : Connection) :
    Dataless s (if c.state < csDisconnecting then s.cnnDisconnect env c else (s, c)).1 := by
  split
  · exact dataless_send env s sizeofPacket _ (by decide : ptDisconnect ≠ ptData)
  · exact .refl s

theorem dataless_requestResends (env : Env) : ∀ (n : Nat) (packId : UInt16) (s : Server),
    Dataless s (requestResends env n packId s)
  | 0, _, s => .refl s
  | n + 1, packId, s => by
    have h := dataless_send env s 16 ⟨none, defaultConnection, ptResend, be16 packId⟩
      (by decide : ptResend ≠ ptData)
    unfold requestResends
    dsimp only
    split
    · exact h.trans (dataless_requestResends env n (packId + 1) _)
    · exact h

theorem dataless_noteId (env : Env) (s : Server) (ip : InPac) : Dataless s (s.noteId env ip) := by
  unfold noteId
  dsimp only
  split
  · exact .refl s
  · split
    · exact (dataless_requestResends env _ _ s).congr rfl rfl
    · exact .of_eq rfl rfl

theorem dataless_handleControlPacket (env : Env) (s : Server) (ip : InPac) :
    Dataless s (s.handleControlPacket env ip) := by
  unfold handleControlPacket
  dsimp only
  split
  · have h : Dataless s { s with state := .connected } := .of_eq rfl rfl
    exact (h.trans (dataless_sendPing env _)).congr rfl rfl
  · split
    · exact .of_eq rfl rfl
    · split
      · exact .of_eq rfl rfl
      · exact .of_eq rfl rfl

theorem dataless_runStep (env : Env) (s : Server) (ok : Bool) : Dataless s (s.runStep env ok) := by
  unfold runStep
  split
  case h_4 =>
    obtain ⟨o, state, phase, -, ht, h, -⟩ := sendInit_eq env s
    rw [h]
    exact (dataless_send env s 18 o (by rw [ht]; decide)).congr rfl rfl
  case h_9 =>
    obtain ⟨o, state, phase, -, ht, h, -⟩ := sendShutdown_eq env s
    rw [h]
    exact (dataless_send env s sizeofPacket o (by rw [ht]; decide)).congr rfl rfl
  all_goals exact .of_eq rfl rfl

theorem dataless_nextPing (env : Env) (s : Server) : Dataless s (s.nextPing env) := by
  unfold nextPing
  split
  · exact dataless_sendPing env s
  · split
    · exact .of_eq rfl rfl
    · exact .refl s

/-! ## Connections without writes -/

/-- No write waits on the connection. -/
def Writeless (c : Connection) : Prop := ∀ r ∈ c.reqQueue, r.type ≠ rtWrite

theorem dataless_pushToClient (h : Writeless c) : Dataless s (s.pushToClient c).1 := by
  unfold pushToClient
  split
  · exact .refl s
  · refine ⟨[], _, (List.append_nil _).symm, rfl, nofun, fun r hr => .inl ?_⟩
    obtain ⟨q, hq, ht⟩ := deliver_mem Request.type (fun _ _ _ _ => rfl) hr
    rw [← ht]
    exact h q hq

theorem takeRequest_mem {type : UInt16} : ∀ {reqs rest : List Request} {r : Request},
    takeRequest type reqs = some (r, rest) → r.type = type ∧ ∀ q ∈ rest, q ∈ reqs
  | [], _, _, h => by cases h
  | q :: reqs, rest, r, h => by
    unfold takeRequest at h
    split at h
    · next ht =>
      cases h
      exact ⟨ht, fun q hq => List.mem_cons_of_mem _ hq⟩
    · obtain ⟨⟨u, us⟩, hu, h⟩ := Option.map_eq_some_iff.1 h
      cases h
      obtain ⟨h₁, h₂⟩ := takeRequest_mem hu
      refine ⟨h₁, fun q hq => ?_⟩
      rcases List.mem_cons.1 hq with rfl | hq
      · exact List.mem_cons_self
      · exact List.mem_cons_of_mem _ (h₂ q hq)

theorem dataless_replyRequest (s : Server) (c : Connection) (state : RequestState) :
    Dataless s (s.replyRequest c rtOpen state).1 := by
  unfold replyRequest
  cases h : takeRequest rtOpen c.reqQueue with
  | none => exact .refl s
  | some q =>
    refine dataless_reply (.inl ?_)
    rw [(takeRequest_mem h).1]
    decide

theorem tickRequests_types : ∀ (reqs : List Request), (∀ r ∈ (tickRequests reqs).1, r.state = .timeout) ∧
    ∀ r ∈ (tickRequests reqs).2, ∃ q ∈ reqs, r.type = q.type
  | [] => ⟨nofun, nofun⟩
  | q :: reqs => by
    unfold tickRequests
    split
    · refine ⟨fun r hr => ?_, fun r hr => ⟨r, List.mem_cons_of_mem _ hr, rfl⟩⟩
      cases hr
      rfl
    · obtain ⟨h₁, h₂⟩ := tickRequests_types reqs
      refine ⟨h₁, fun r hr => ?_⟩
      rcases List.mem_cons.1 hr with rfl | hr
      · refine ⟨q, List.mem_cons_self, ?_⟩
        split <;> rfl
      · obtain ⟨u, hu, ht⟩ := h₂ r hr
        exact ⟨u, List.mem_cons_of_mem _ hu, ht⟩

theorem dataless_cnnCheckRequestTimeouts (s : Server) (c : Connection) :
    Dataless s (s.cnnCheckRequestTimeouts c) := by
  refine ⟨[], _, (List.append_nil _).symm, rfl, nofun, fun r hr => .inr ?_⟩
  rw [(tickRequests_types c.reqQueue).1 r (Option.mem_toList.1 hr)]
  decide

theorem dataless_foldl {f : Server → Connection → Server} (hf : ∀ s c, Dataless s (f s c)) :
    ∀ (l : List Connection) (s : Server), Dataless s (l.foldl f s)
  | [], s => .refl s
  | c :: l, s => (hf s c).trans (dataless_foldl hf l (f s c))

theorem dataless_handleTimer (env : Env) (s : Server) : Dataless s (s.handleTimer env) := by
  unfold handleTimer
  dsimp only
  split
  · exact .of_eq rfl rfl
  · have hc : Dataless s s.checkPing := by
      unfold checkPing
      dsimp only
      split
      · split
        · exact .of_eq rfl rfl
        · exact .of_eq rfl rfl
      · split
        · exact .of_eq rfl rfl
        · exact .refl s
    have ht : Dataless (s.checkPing.nextPing env) (s.checkPing.nextPing env).checkRequestTimeouts :=
      dataless_foldl dataless_cnnCheckRequestTimeouts _ _
    exact ((hc.trans (dataless_nextPing env _)).trans ht).congr rfl rfl
  · exact .of_eq rfl rfl
  · exact .of_eq rfl rfl

/-- A packet brings no data out, and answers no write. -/
theorem dataless_handleConnectionPacket (env : Env) (s : Server) (h : Writeless c) (ip : InPac) :
    Dataless s (s.handleConnectionPacket env c ip) := by
  have hrel : Dataless s (s.release ip) := .of_eq rfl rfl
  unfold handleConnectionPacket
  dsimp only
  split
  · exact (hrel.trans (dataless_replyRequest _ _ .ok)).congr rfl rfl
  split
  · unfold destroyConnection
    exact (hrel.trans (dataless_disconnect env _ _)).congr rfl rfl
  split
  · exact (dataless_replyRequest s _ .noHandler).congr rfl rfl
  split
  · exact hrel
  · have hh : Dataless s { s with handed := s.handed ++ [(c.num, ip)] } := .of_eq rfl rfl
    exact (hh.trans (dataless_pushToClient (c := { c with packetQueue := c.packetQueue ++ [ip] }) h)).congr rfl rfl

theorem dataless_handlePacket (env : Env) (h : ∀ c ∈ s.connections, Writeless c) (ip : InPac) :
    Dataless s (s.handlePacket env ip) := by
  have hh : Dataless s (s.hear ip) := .of_eq rfl rfl
  have hq := quiet_noteId env (s.hear ip) ip
  rw [handlePacket_eq]
  refine (hh.trans (dataless_noteId env _ ip)).trans ?_
  unfold dispatch
  split
  · exact dataless_handleControlPacket env _ ip
  · split
    · exact (dataless_send env _ sizeofPacket _ (by decide : ptNoConnection ≠ ptData)).congr rfl rfl
    · next c hc =>
      refine dataless_handleConnectionPacket env _ (h c ?_) ip
      have hm := mem_of_findConnection hc
      rwa [hq.connections] at hm

/-! ## Requests -/

/-- A write is carried out: its data goes out, and it is answered. -/
structure Carried (s : Server) (r : Request) (s' : Server) : Prop where
  written : Written r
  out : ∃ o, s'.out = s.out ++ [o] ∧ o.type = ptData ∧ o.connId = r.connId ∧ o.data = r.data.take r.length.toNat
  replied : s'.replied = s.replied ++ [r]
  actual : r.actual = r.length

/-- The request as it is answered on the connection with this id. -/
structure Answer (req : Request) (id : UInt16) (r : Request) : Prop where
  num : r.num = req.num
  type : r.type = req.type
  connId : r.connId = id
  data : r.data = req.data
  length : r.length = req.length

/-- **A request is a write that is carried out**, or has nothing to do with data. -/
theorem handleClientRequest_carried (env : Env) (s : Server) (h : Writeless c) (req : Request) :
    Dataless s (s.handleClientRequest env c req) ∨
      ∃ r, Answer req c.id r ∧ Carried s r (s.handleClientRequest env c req) := by
  unfold handleClientRequest
  dsimp only
  by_cases ho : req.type = rtOpen
  · rw [if_pos ho]
    exact .inl ((dataless_send env s 16 _ (by decide : ptConnect ≠ ptData)).congr rfl rfl)
  rw [if_neg ho]
  by_cases hc : req.type = rtClose
  · rw [if_pos hc]
    refine .inl ((dataless_disconnect env s c).trans ?_)
    exact (dataless_reply (.inl (by rw [hc]; decide))).congr rfl rfl
  rw [if_neg hc]
  by_cases hr : req.type = rtRead
  · have hne : req.type ≠ rtWrite := by rw [hr]; decide
    rw [if_pos hr]
    split
    · exact .inl (dataless_reply (.inl hne))
    split
    · exact .inl (dataless_reply (.inl hne))
    · refine .inl ((dataless_pushToClient fun q hq => ?_).congr rfl rfl)
      rcases List.mem_append.1 hq with hq | hq
      · exact h q hq
      · rw [List.mem_singleton.1 hq]
        exact hne
  rw [if_neg hr]
  by_cases hw : req.type = rtWrite
  · rw [if_pos hw]
    split
    · exact .inl (dataless_reply (.inr (by simp)))
    split
    · exact .inl (dataless_reply (.inr (by simp)))
    · unfold pushToRemote
      obtain ⟨os, hs, ⟨rfl, hb⟩ | ⟨rfl, hb⟩⟩ := send_eq env s ((sizeofPacket + req.length.toNat) % 65536)
        ⟨some c.num, c.id, ptData, req.data.take req.length.toNat⟩
      · dsimp only
        rw [hb, hs]
        refine .inl (Dataless.trans ?_ (dataless_reply (.inr (by simp))))
        exact .of_eq (List.append_nil _) rfl
      · dsimp only
        rw [hb, hs]
        refine .inr ⟨_, ⟨?_, ?_, ?_, ?_, ?_⟩, ⟨?_, ?_⟩, ⟨_, rfl, rfl, ?_, ?_⟩, rfl, ?_⟩
        · rfl
        · rfl
        · rfl
        · rfl
        · rfl
        · exact hw
        · rfl
        · rfl
        · rfl
        · rfl
  · rw [if_neg hw]
    exact .inl (dataless_reply (.inl hw))

/-- A write is answered at once. -/
theorem write_answered (env : Env) (s : Server) {req : Request} (hw : req.type = rtWrite)
    (hk : req.connId ≠ defaultConnection) :
    ∃ s' r, s.receiveRequest env req = some s' ∧ s'.replied = s.replied ++ [r] := by
  unfold receiveRequest
  rw [if_neg hk]
  split
  · exact ⟨_, _, rfl, rfl⟩
  · next c hc =>
    have ho : ¬rtWrite = rtOpen := by decide
    have hcl : ¬rtWrite = rtClose := by decide
    have hr : ¬rtWrite = rtRead := by decide
    unfold handleClientRequest
    dsimp only
    rw [hw, if_neg ho, if_neg hcl, if_neg hr, if_pos rfl]
    split
    · exact ⟨_, _, rfl, rfl⟩
    split
    · exact ⟨_, _, rfl, rfl⟩
    · obtain ⟨os, hs, -⟩ := send_eq env s ((sizeofPacket + req.length.toNat) % 65536)
        ⟨some c.num, c.id, ptData, req.data.take req.length.toNat⟩
      have hr := congrArg replied hs
      exact ⟨_, _, rfl, congrArg (fun rs => rs ++ [_]) hr⟩

theorem receiveRequest_carried (hw : ∀ c ∈ s.connections, Writeless c) (h : s.receiveRequest env req = some s') :
    Dataless s s' ∨ ∃ r, Answer req req.connId r ∧ Carried s r s' := by
  unfold receiveRequest at h
  split at h
  · unfold handleClientControlMessage createConnection at h
    dsimp only at h
    split at h
    · next ho =>
      cases hc : env.connection s.creations with
      | none =>
        rw [hc] at h
        cases h
      | some state =>
        rw [hc] at h
        cases h
        have hn : Dataless s (s.withNew state) := .of_eq rfl rfl
        obtain hd | ⟨r, hr, hcar⟩ := handleClientRequest_carried env (s.withNew state)
          (c := s.newConnection state) nofun { req with state := .ok }
        · exact .inl (hn.trans hd)
        · have ht : rtOpen = rtWrite := ho.symm.trans (hr.type.symm.trans hcar.written.1)
          exact absurd ht (by decide)
    split at h
    · next hq =>
      cases h
      refine .inl ((Dataless.of_eq rfl rfl).trans (dataless_reply (.inl ?_)))
      rw [hq]
      decide
    split at h
    · next hl =>
      cases h
      refine .inl (dataless_reply (.inl ?_))
      rw [hl]
      decide
    · cases h
      exact .inl (dataless_reply (.inr (by simp)))
  · split at h
    · cases h
      exact .inl (dataless_reply (.inr (by simp)))
    · next c hc =>
      cases h
      have hid : c.id = req.connId := by
        unfold findConnection at hc
        simpa using List.find?_some hc
      rw [← hid]
      exact handleClientRequest_carried env s (hw c (mem_of_findConnection hc)) req

/-! ## Steps -/

theorem Writeless.push (h : Writeless c) : Writeless (push c).2 := by
  unfold Server.push
  split
  · exact h
  · exact fun r hr => h r ((deliver_requests c.packetQueue c.reqQueue).subset hr)

/-- Writes are answered at once, so none joins a queue. -/
theorem Writeless.move {act : Act} {out : List Request} (h : Writeless c) (m : Move c act out c') : Writeless c' := by
  have hans : ∀ {state : RequestState} {out rs : List Request}, Answers state c.reqQueue out rs →
      ∀ r ∈ rs, r.type ≠ rtWrite := by
    rintro state out rs (⟨-, -, rfl⟩ | ⟨q, hq, -⟩)
    · exact h
    · exact fun r hr => h r ((takeRequest_mem hq).2 r hr)
  have hjoin : ∀ {r : Request}, r.type ≠ rtWrite → ∀ q ∈ c.reqQueue ++ [r], q.type ≠ rtWrite := by
    intro r hr q hq
    rcases List.mem_append.1 hq with hq | hq
    · exact h q hq
    · rwa [List.mem_singleton.1 hq]
  cases m with
  | connected _ ha => exact hans ha
  | noHandler _ ha => exact hans ha
  | dropped => exact h
  | queued => exact Writeless.push h
  | @opened req state ho =>
    have ht : (received c req).type = rtOpen := ho
    exact hjoin (by rw [ht]; decide)
  | @read req ho =>
    have ht : (received c req).type = rtRead := ho
    exact Writeless.push (hjoin (by rw [ht]; decide))
  | answered => exact h
  | tick =>
    intro r hr
    obtain ⟨q, hq, ht⟩ := (tickRequests_types c.reqQueue).2 r hr
    rw [ht]
    exact h q hq

theorem writeless_step (h : ∀ c ∈ s.connections, Writeless c) (d : s.Distinct) (hs : step env s e = some s') :
    ∀ c ∈ s'.connections, Writeless c := by
  have hh : Holds Writeless (fun _ => True) s := ⟨h, fun _ _ => trivial⟩
  refine (hh.step d (fun c _ hc r hr => ?_) (fun _ _ => trivial) (fun c act out c' hI _ m => ?_) hs).connection
  · rw [hc] at hr
    cases hr
  · exact ⟨hI.move m, fun _ _ => trivial⟩

/-- **A step carries out a write**, the one that a client has just made, or has nothing to do with data. -/
theorem step_carried (h : ∀ c ∈ s.connections, Writeless c) (hs : step env s e = some s') : Dataless s s' ∨
    ∃ req r, e = .request req ∧ Answer { req with num := s.taken } req.connId r ∧ Carried s r s' := by
  cases e with
  | run ok =>
    cases hs
    exact .inl (dataless_runStep env s ok)
  | wake brk =>
    cases hs
    refine .inl ?_
    split
    · exact .of_eq rfl rfl
    · exact .of_eq rfl rfl
  | timer fired =>
    cases hs
    cases fired with
    | false => exact .inl (.of_eq rfl rfl)
    | true => exact .inl ((dataless_handleTimer env s).congr rfl rfl)
  | request req =>
    have ht : Dataless s { s with taken := s.taken + 1 } := .of_eq rfl rfl
    obtain hd | ⟨r, hr, hc⟩ := receiveRequest_carried (s := { s with taken := s.taken + 1 }) h hs
    · exact .inl (ht.trans hd)
    · exact .inr ⟨req, r, rfl, hr, hc.written, hc.out, hc.replied, hc.actual⟩
  | requestsDone =>
    cases hs
    exact .inl (.of_eq rfl rfl)
  | packet seq pac =>
    cases hs
    have ht : Dataless s { s with dequeued := s.dequeued + 1 } := .of_eq rfl rfl
    exact .inl (ht.trans (dataless_handlePacket (s := { s with dequeued := s.dequeued + 1 }) env h _))
  | packetsDone =>
    cases hs
    exact .inl (.of_eq rfl rfl)

/-! ## Runs -/

/-- The writes that were answered `APB_RS_OK`. -/
def written (s : Server) : List Request := s.replied.filter fun r => Written r

/-- What went out is what was written, in the order of the writes. -/
structure SentAsWritten (s : Server) : Prop where
  data : dataOf s.out = writesOf s.replied
  order : (s.written.map Request.num).Pairwise (· < ·)
  taken : ∀ r ∈ s.written, r.num < s.taken
  actual : ∀ r ∈ s.written, r.actual = r.length

theorem SentAsWritten.step (h : s.SentAsWritten) (hw : ∀ c ∈ s.connections, Writeless c) (d : s.Distinct)
    (hs : Server.step env s e = some s') : s'.SentAsWritten := by
  have htaken := (booked_step d hs).taken
  obtain ⟨os, rs, ho, hr, hos, hrs⟩ | ⟨req, r, rfl, hans, hc⟩ := step_carried hw hs
  · have hwr : s'.written = s.written := by
      rw [written, hr, List.filter_append, filter_written_eq_nil hrs, List.append_nil]
      rfl
    refine ⟨?_, by rw [hwr]; exact h.order, fun q hq => ?_, by rw [hwr]; exact h.actual⟩
    · rw [ho, hr, dataOf_append, writesOf_append, dataOf_eq_nil hos, h.data,
        writesOf_eq_nil (filter_written_eq_nil hrs)]
    · rw [hwr] at hq
      exact (h.taken q hq).trans_le (htaken ▸ Nat.le_add_right _ _)
  · obtain ⟨o, ho, hot, hoc, hod⟩ := hc.out
    have hwr : s'.written = s.written ++ [r] := by
      simp [written, hc.replied, hc.written]
    have hnum : r.num = s.taken := hans.num
    have htaken : s'.taken = s.taken + 1 := htaken
    have hmem : ∀ q ∈ s'.written, q ∈ s.written ∨ q = r := fun q hq => by
      rw [hwr] at hq
      exact (List.mem_append.1 hq).imp_right List.mem_singleton.1
    refine ⟨?_, ?_, fun q hq => ?_, fun q hq => ?_⟩
    · have hd : dataOf [o] = writesOf [r] := by simp [dataOf, writesOf, hot, hc.written, hoc, hod]
      rw [ho, hc.replied, dataOf_append, writesOf_append, h.data, hd]
    · rw [hwr, List.map_append, List.pairwise_append]
      refine ⟨h.order, List.pairwise_singleton .., fun n hn m hm => ?_⟩
      obtain ⟨q, hq, rfl⟩ := List.mem_map.1 hn
      rw [List.map_singleton, List.mem_singleton] at hm
      rw [hm, hnum]
      exact h.taken q hq
    · rcases hmem q hq with hq | rfl
      · exact (h.taken q hq).trans_le (htaken ▸ Nat.le_add_right _ _)
      · rw [hnum, htaken]
        exact Nat.lt_succ_self _
    · rcases hmem q hq with hq | rfl
      · exact h.actual q hq
      · exact hc.actual

theorem sentAsWritten_start : start.SentAsWritten :=
  have hw : start.written = [] := rfl
  ⟨rfl, .nil, fun _ hr => absurd (hw ▸ hr) List.not_mem_nil, fun _ hr => absurd (hw ▸ hr) List.not_mem_nil⟩

theorem sentAsWritten_run {x : Server} (hx : runs (step env) start es = some x) : x.SentAsWritten := by
  have h := runs_inv_all (fun s => s.SentAsWritten ∧ (∀ c ∈ s.connections, Writeless c) ∧ s.Distinct)
    (fun s e s' hI hs => by
      obtain ⟨hI, hw, d⟩ := hI
      exact ⟨hI.step hw d hs, writeless_step hw d hs, (booked_step d hs).distinct⟩)
    ⟨sentAsWritten_start, fun _ hc => absurd hc List.not_mem_nil, distinct_start⟩ hx
  exact h.1

/-- **Writes go out in order**: the data that the server has sent is that of the writes that it has answered
`APB_RS_OK`, on their connections and with all their bytes, and these are in the order in which they were taken from
the client port. -/
theorem writes_in_order (env : Env) (es : List Event) (x : Server) (hx : runs (step env) start es = some x) :
    dataOf x.out = (x.written.map fun r => (r.connId, r.data.take r.actual.toNat)) ∧
      (x.written.map Request.num).Pairwise (· < ·) ∧ ∀ r ∈ x.written, r.actual = r.length := by
  have h := sentAsWritten_run hx
  refine ⟨?_, h.order, h.actual⟩
  rw [h.data]
  exact List.map_congr_left fun r hr => by rw [h.actual r hr]

/-- Two writes, the second of which gets no packet, and a third. -/
theorem writes_in_order_three : ∃ x : Server,
    runs (step { packet := fun n => n ≠ 4, connection := fun _ => some 0 }) start (greeting ++
      pass [ask rtOpen 0] [bare 2 ptConnected 1] ++
      pass [{ ask rtWrite 1 with length := 1, data := [65] }, { ask rtWrite 1 with length := 1, data := [66] },
        { ask rtWrite 1 with length := 2, data := [67, 68] }] []) = some x ∧
    dataOf x.out = [(1, [65]), (1, [67, 68])] ∧ (x.written.map Request.num).Pairwise (· < ·) := by
  have hx : (runs (step { packet := fun n => n ≠ 4, connection := fun _ => some 0 }) start (greeting ++
      pass [ask rtOpen 0] [bare 2 ptConnected 1] ++
      pass [{ ask rtWrite 1 with length := 1, data := [65] }, { ask rtWrite 1 with length := 1, data := [66] },
        { ask rtWrite 1 with length := 2, data := [67, 68] }] [])).map
      (fun x => x.written.map fun r => (r.connId, r.data.take r.actual.toNat)) =
      some [(1, [65]), (1, [67, 68])] := by decide +kernel
  obtain ⟨x, hx, hd⟩ := Option.map_eq_some_iff.1 hx
  obtain ⟨h₁, h₂, -⟩ := writes_in_order _ _ x hx
  exact ⟨x, hx, h₁.trans hd, h₂⟩

end AmiPiBorg.Server
