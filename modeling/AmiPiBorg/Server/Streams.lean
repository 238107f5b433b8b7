import AmiPiBorg.Server.Books

/-!
# Connections as streams

`handedTo s n` are the packets that were put on the queue of connection object `n`, in order. Clients read from the
front of the queue, so what waits is always the end of that list (`Ordered.queue`). The packets come in the order of
their ids as long as none is lost; a packet that is sent again comes after those that went on without it, and any number
of times, and the server hands it over all the same (`resent_out_of_order`). Only if every such packet comes before all
later data of its connection is the stream in order (`data_in_order`).
-/

set_option autoImplicit false

namespace AmiPiBorg.Server

open ProgLib

variable {env : Env} {s s' t : Server} {c c' : Connection} {ip : InPac} {req : Request} {e : Event} {es : List Event}

/-- The packets that were put on the queue of connection object `n`. -/
def handedTo (s : Server) (n : Nat) : List InPac := (s.handed.filter fun h => h.1 = n).map Prod.snd

/-- The places, among what the Pi sent, of the data that was handed over to connection object `n`. -/
def dataSeqs (s : Server) (n : Nat) : List Nat := ((s.handedTo n).filter fun ip => ip.pac.type = ptData).map InPac.seq

/-- No packet is handed over, and the queues at most lose packets at the front. -/
structure Waits (s s' : Server) : Prop where
  handed : s'.handed = s.handed
  heard : s'.heard = s.heard
  queue : ∀ c' ∈ s'.connections, c'.packetQueue = [] ∨
    ∃ c ∈ s.connections, c'.num = c.num ∧ c'.packetQueue <:+ c.packetQueue

theorem Waits.of_eq (h₁ : s'.handed = s.handed) (h₂ : s'.heard = s.heard) (h₃ : s'.connections = s.connections) :
    Waits s s' := by
  refine ⟨h₁, h₂, fun c hc => .inr ⟨c, ?_, rfl, List.suffix_rfl⟩⟩
  rw [← h₃]
  exact hc

theorem Waits.trans (h : Waits s s') (h' : Waits s' t) : Waits s t := by
  refine ⟨h'.handed.trans h.handed, h'.heard.trans h.heard, fun c hc => ?_⟩
  obtain hn | ⟨b, hb, hnum, hq⟩ := h'.queue c hc
  · exact .inl hn
  · obtain hn | ⟨a, ha, hnum', hq'⟩ := h.queue b hb
    · rw [hn] at hq
      exact .inl (List.suffix_nil.1 hq)
    · exact .inr ⟨a, ha, hnum.trans hnum', hq.trans hq'⟩

theorem Quiet.waits (h : Quiet s s') : Waits s s' := .of_eq h.handed h.heard h.connections

/-- Work on a connection that takes at most packets from the front of its queue. -/
theorem waits_put (hc : c ∈ s.connections) (hconn : s'.connections = s.connections) (hh : s'.handed = s.handed)
    (hs : s'.heard = s.heard) (hnum : c'.num = c.num) (hq : c'.packetQueue <:+ c.packetQueue) : Waits s (s'.put c') := by
  refine ⟨hh, hs, fun b hb => .inr ?_⟩
  rcases Keyed.mem_put hb with rfl | ⟨hb, -⟩
  · exact ⟨c, hc, hnum, hq⟩
  · rw [hconn] at hb
    exact ⟨b, hb, rfl, List.suffix_rfl⟩

theorem pushToClient_queue (s : Server) (c : Connection) : (s.pushToClient c).1.connections = s.connections ∧
    (s.pushToClient c).1.handed = s.handed ∧ (s.pushToClient c).1.heard = s.heard ∧
    (s.pushToClient c).2.num = c.num ∧ (s.pushToClient c).2.packetQueue <:+ c.packetQueue := by
  unfold pushToClient
  split
  · exact ⟨rfl, rfl, rfl, rfl, List.suffix_rfl⟩
  · exact ⟨rfl, rfl, rfl, rfl, deliver_suffix c.packetQueue c.reqQueue⟩

theorem replyRequest_queue (s : Server) (c : Connection) (type : UInt16) (state : RequestState) :
    (s.replyRequest c type state).1.connections = s.connections ∧
      (s.replyRequest c type state).1.handed = s.handed ∧ (s.replyRequest c type state).1.heard = s.heard ∧
      (s.replyRequest c type state).2.num = c.num ∧ (s.replyRequest c type state).2.packetQueue = c.packetQueue := by
  unfold replyRequest
  split
  · exact ⟨rfl, rfl, rfl, rfl, rfl⟩
  · exact ⟨rfl, rfl, rfl, rfl, rfl⟩

/-- **A request hands nothing over.** -/
theorem waits_handleClientRequest (env : Env) (hc : c ∈ s.connections) (req : Request) :
    Waits s (s.handleClientRequest env c req) := by
  obtain ⟨r, -, ⟨-, h⟩ | ⟨-, h⟩ | ⟨-, h⟩ | ⟨-, -, -, -, h⟩ | h⟩ := handleClientRequest_cases env s c req
  · obtain ⟨os, state, he, -⟩ :=
      cnnConnect_eq env s { c with handlerId := req.handlerId, reqQueue := c.reqQueue ++ [r] }
    rw [h, he]
    exact waits_put hc rfl rfl rfl rfl List.suffix_rfl
  · obtain ⟨n, os, state, he, -⟩ := disconnect_eq env s c
    have hp : Waits s (Server.put { s with allocs := n, out := s.out ++ os } { c with state := state }) :=
      waits_put hc rfl rfl rfl rfl List.suffix_rfl
    rw [h, he]
    exact hp.trans (.of_eq rfl rfl rfl)
  · obtain ⟨h₁, h₂, h₃, h₄, h₅⟩ := pushToClient_queue s { c with reqQueue := c.reqQueue ++ [r] }
    rw [h]
    exact waits_put hc h₁ h₂ h₃ h₄ h₅
  · obtain ⟨os, hs, -⟩ := send_eq env s ((sizeofPacket + req.length.toNat) % 65536)
      ⟨some c.num, c.id, ptData, req.data.take req.length.toNat⟩
    rw [h, hs]
    exact .of_eq rfl rfl rfl
  · rw [h]
    exact .of_eq rfl rfl rfl

theorem waits_receiveRequest (h : s.receiveRequest env req = some s') : Waits s s' := by
  obtain ⟨r, -, ⟨t, ht, rfl⟩ | ⟨c, hc, rfl, -⟩ | ⟨-, -, state, -, rfl, -⟩⟩ := receiveRequest_cases h
  · exact (quiet_of_quit ht).waits.trans (.of_eq rfl rfl rfl)
  · exact waits_handleClientRequest env (mem_of_target hc) r
  · have hw : Waits s (s.withNew state) := by
      refine ⟨rfl, rfl, fun b hb => ?_⟩
      rcases List.mem_append.1 hb with hb | hb
      · exact .inr ⟨b, hb, rfl, List.suffix_rfl⟩
      · rw [List.mem_singleton.1 hb]
        exact .inl rfl
    exact hw.trans (waits_handleClientRequest env (List.mem_append_right _ (List.mem_singleton.2 rfl)) r)

theorem waits_handleTimer (d : s.Distinct) (env : Env) : Waits s (s.handleTimer env) := by
  unfold handleTimer
  dsimp only
  split
  · exact .of_eq rfl rfl rfl
  · have hq := (quiet_checkPing s).trans (quiet_nextPing env _)
    have hd := (hq.accounted d).distinct
    have ht : Waits (s.checkPing.nextPing env) (s.checkPing.nextPing env).checkRequestTimeouts := by
      apply Keyed.foldl_inv connections (Waits _) _ hd.nodup (fun _ hb => hb) (.of_eq rfl rfl rfl)
      intro t c ht hc
      refine ⟨ht.trans ?_, fun b hb hne => Keyed.mem_put_of_ne hb hne⟩
      exact waits_put hc rfl rfl rfl rfl List.suffix_rfl
    exact (hq.waits.trans ht).trans (.of_eq rfl rfl rfl)
  · exact .of_eq rfl rfl rfl
  · exact .of_eq rfl rfl rfl

/-! ## Packets -/

/-- A packet is handed over to connection `c`. -/
structure Hands (s : Server) (c : Connection) (ip : InPac) (s' : Server) : Prop where
  handed : s'.handed = s.handed ++ [(c.num, ip)]
  heard : s'.heard = s.heard
  queue : ∀ c' ∈ s'.connections, c'.num = c.num ∧ c'.packetQueue <:+ c.packetQueue ++ [ip] ∨ c'.num ≠ c.num ∧ c' ∈ s.connections

/-- What a packet does to the queues: it is handed over, unless the connection is about to go. -/
theorem handleConnectionPacket_queue (env : Env) (hc : c ∈ s.connections) (ip : InPac) :
    Waits s (s.handleConnectionPacket env c ip) ∨
      c.state < csDisconnecting ∧ Hands s c ip (s.handleConnectionPacket env c ip) := by
  have hrel : Waits s (s.release ip) := .of_eq rfl rfl rfl
  unfold handleConnectionPacket
  dsimp only
  split
  · obtain ⟨h₁, h₂, h₃, h₄, h₅⟩ := replyRequest_queue (s.release ip) { c with state := csConnected } rtOpen .ok
    exact .inl (waits_put hc h₁ h₂ h₃ h₄ (by rw [h₅]))
  split
  · refine .inl ⟨?_, ?_, fun b hb => .inr ⟨b, ?_, rfl, List.suffix_rfl⟩⟩
    · unfold destroyConnection
      rw [if_neg (show ¬csDisconnected < csDisconnecting by decide)]
      rfl
    · unfold destroyConnection
      rw [if_neg (show ¬csDisconnected < csDisconnecting by decide)]
      rfl
    · unfold destroyConnection at hb
      rw [if_neg (show ¬csDisconnected < csDisconnecting by decide)] at hb
      exact (Keyed.mem_remove.1 hb).1
  split
  · obtain ⟨h₁, h₂, h₃, h₄, h₅⟩ := replyRequest_queue s { c with state := csNoHandler } rtOpen .noHandler
    exact .inl (waits_put hc h₁ h₂ h₃ h₄ (by rw [h₅]))
  split
  · exact .inl hrel
  · next hst =>
    obtain ⟨h₁, h₂, h₃, h₄, h₅⟩ := pushToClient_queue { s with handed := s.handed ++ [(c.num, ip)] }
      { c with packetQueue := c.packetQueue ++ [ip] }
    refine .inr ⟨UInt16.not_le.1 hst, h₂, h₃, fun b hb => ?_⟩
    rcases Keyed.mem_put hb with rfl | ⟨hb, hne⟩
    · exact .inl ⟨h₄, h₅⟩
    · rw [h₁] at hb
      rw [h₄] at hne
      exact .inr ⟨hne, hb⟩

/-- **What a packet does to the queues.** -/
theorem handlePacket_queue (env : Env) (s : Server) (ip : InPac) :
    Waits (s.hear ip) (s.handlePacket env ip) ∨
      ∃ c ∈ s.target ip.pac.connId, c.state < csDisconnecting ∧ Hands (s.hear ip) c ip (s.handlePacket env ip) := by
  have hn := quiet_noteId env (s.hear ip) ip
  have hw := hn.waits
  have htarget : ((s.hear ip).noteId env ip).target ip.pac.connId = s.target ip.pac.connId :=
    target_congr hn.connections _
  have hconn : ((s.hear ip).noteId env ip).connections = (s.hear ip).connections := hn.connections
  rw [handlePacket_eq]
  generalize (s.hear ip).noteId env ip = t at hw htarget hconn ⊢
  unfold dispatch
  by_cases h₀ : ip.pac.connId = defaultConnection
  · obtain ⟨t', hq, he⟩ := handleControlPacket_eq env t ip
    rw [if_pos h₀, he]
    exact .inl ((hw.trans hq.waits).trans (.of_eq rfl rfl rfl))
  · rw [if_neg h₀]
    cases hf : t.findConnection ip.pac.connId with
    | none =>
      have hq := quiet_send env t sizeofPacket ⟨none, ip.pac.connId, ptNoConnection, []⟩ rfl
      exact .inl ((hw.trans hq.waits).trans (.of_eq rfl rfl rfl))
    | some c =>
      obtain h | ⟨hst, h⟩ := handleConnectionPacket_queue env (mem_of_findConnection hf) ip
      · exact .inl (hw.trans h)
      · refine .inr ⟨c, ?_, hst, h.handed.trans (by rw [hw.handed]), h.heard.trans hw.heard, fun b hb => ?_⟩
        · rw [← htarget, target, if_neg h₀, hf]
          rfl
        · rw [← hconn]
          exact h.queue b hb

/-! ## Runs -/

/-- How packets arrive. Their ids are consecutive; a packet that is not sent again comes after all that came before it,
and only a packet that was lost is sent again. -/
def Arrives (s : Server) : Event → Prop
  | .packet seq pac => pac.packId = UInt16.ofNat seq ∧ (pac.flags &&& resend = 0 → ∀ h ∈ s.heard, h.1 < seq) ∧
      (pac.flags &&& resend ≠ 0 → (seq, false) ∉ s.heard)
  | _ => True

/-- Data that is sent again comes before all later data of its connection, and once, if it is handed over at all. -/
def InSequence (s : Server) : Event → Prop
  | .packet seq pac => pac.flags &&& resend ≠ 0 → pac.type = ptData → ∀ c ∈ s.target pac.connId,
      c.state < csDisconnecting → ∀ q ∈ s.dataSeqs c.num, q < seq
  | _ => True

instance (s : Server) : (e : Event) → Decidable (Arrives s e)
  | .run _ => .isTrue trivial
  | .wake _ => .isTrue trivial
  | .timer _ => .isTrue trivial
  | .request _ => .isTrue trivial
  | .requestsDone => .isTrue trivial
  | .packet .. => inferInstanceAs (Decidable (_ ∧ (_ → ∀ _ ∈ _, _) ∧ (_ → _)))
  | .packetsDone => .isTrue trivial

instance (s : Server) : (e : Event) → Decidable (InSequence s e)
  | .run _ => .isTrue trivial
  | .wake _ => .isTrue trivial
  | .timer _ => .isTrue trivial
  | .request _ => .isTrue trivial
  | .requestsDone => .isTrue trivial
  | .packet .. => inferInstanceAs (Decidable (_ → _ → ∀ _ ∈ _, _ → ∀ _ ∈ _, _))
  | .packetsDone => .isTrue trivial

/-- The data of every connection is in order. -/
structure Ordered (s : Server) : Prop where
  distinct : s.Distinct
  heard : ∀ h ∈ s.handed, ∃ b, (h.2.seq, b) ∈ s.heard
  sorted : ∀ n, (s.dataSeqs n).Pairwise (· < ·)
  queue : ∀ c ∈ s.connections, c.packetQueue <:+ s.handedTo c.num

theorem dataSeqs_congr (h : s'.handed = s.handed) (n : Nat) : s'.dataSeqs n = s.dataSeqs n := by
  unfold dataSeqs handedTo
  rw [h]

theorem handedTo_congr (h : s'.handed = s.handed) (n : Nat) : s'.handedTo n = s.handedTo n := by
  unfold handedTo
  rw [h]

/-- What has been handed over has been heard. -/
theorem Ordered.heard_of_mem (h : s.Ordered) {n q : Nat} (hq : q ∈ s.dataSeqs n) : ∃ b, (q, b) ∈ s.heard := by
  obtain ⟨ip, hip, rfl⟩ := List.mem_map.1 hq
  obtain ⟨x, hx, rfl⟩ := List.mem_map.1 (List.mem_of_mem_filter hip)
  exact h.heard x (List.mem_of_mem_filter hx)

theorem Ordered.waits (h : s.Ordered) (hw : Waits s s') (d : s'.Distinct) : s'.Ordered := by
  refine ⟨d, fun x hx => ?_, fun n => ?_, fun c hc => ?_⟩
  · rw [hw.handed] at hx
    rw [hw.heard]
    exact h.heard x hx
  · rw [dataSeqs_congr hw.handed]
    exact h.sorted n
  · rw [handedTo_congr hw.handed]
    obtain hn | ⟨b, hb, hnum, hq⟩ := hw.queue c hc
    · rw [hn]
      exact List.nil_suffix
    · rw [hnum]
      exact hq.trans (h.queue b hb)

/-- A packet that is handed over goes to the end of what was. -/
theorem handedTo_append (h : s'.handed = s.handed ++ [(c.num, ip)]) (n : Nat) :
    s'.handedTo n = s.handedTo n ++ if n = c.num then [ip] else [] := by
  unfold handedTo
  rw [h, List.filter_append, List.map_append]
  by_cases hn : n = c.num
  · rw [if_pos hn, List.filter_cons_of_pos (by simpa using hn.symm)]
    rfl
  · rw [if_neg hn, List.filter_cons_of_neg (by simpa using fun e => hn e.symm)]
    rfl

/-- Packets may be handed over in their order. -/
theorem Ordered.hands (h : s.Ordered) (hh : Hands s c ip s') (d : s'.Distinct) (hip : ∃ b, (ip.seq, b) ∈ s.heard)
    (hseq : ip.pac.type = ptData → ∀ q ∈ s.dataSeqs c.num, q < ip.seq) (hc : c ∈ s.connections) : s'.Ordered := by
  have ht := handedTo_append hh.handed
  refine ⟨d, fun x hx => ?_, fun n => ?_, fun b hb => ?_⟩
  · rw [hh.handed] at hx
    rw [hh.heard]
    rcases List.mem_append.1 hx with hx | hx
    · exact h.heard x hx
    · rw [List.mem_singleton.1 hx]
      exact hip
  · unfold dataSeqs
    rw [ht n]
    by_cases hn : n = c.num
    · rw [if_pos hn, List.filter_append, List.map_append, List.pairwise_append]
      by_cases hd : ip.pac.type = ptData
      · refine ⟨h.sorted n, ?_, fun a ha b hb => ?_⟩
        · rw [List.filter_cons_of_pos (by simpa using hd)]
          exact List.pairwise_singleton _ _
        · rw [List.filter_cons_of_pos (by simpa using hd)] at hb
          rw [List.mem_singleton.1 hb]
          rw [hn] at ha
          exact hseq hd a ha
      · refine ⟨h.sorted n, ?_, fun a ha b hb => ?_⟩
        · rw [List.filter_cons_of_neg (by simpa using hd)]
          exact List.Pairwise.nil
        · rw [List.filter_cons_of_neg (by simpa using hd)] at hb
          cases hb
    · rw [if_neg hn, List.append_nil]
      exact h.sorted n
  · rw [ht b.num]
    obtain ⟨hnum, hq⟩ | ⟨hne, hb⟩ := hh.queue b hb
    · rw [if_pos hnum, hnum]
      obtain ⟨pre, hpre⟩ := h.queue c hc
      rw [← hpre, List.append_assoc]
      exact hq.trans (List.suffix_append pre _)
    · rw [if_neg hne, List.append_nil]
      exact h.queue b hb

theorem Ordered.hear (h : s.Ordered) (ip : InPac) : (s.hear ip).Ordered := by
  refine ⟨h.distinct.congr rfl (Nat.le_refl _), fun x hx => ?_, h.sorted, h.queue⟩
  obtain ⟨b, hb⟩ := h.heard x hx
  exact ⟨b, List.mem_append_left _ hb⟩

/-- **Steps keep the data in order.** -/
theorem Ordered.step (h : s.Ordered) (ha : s.Arrives e) (hi : s.InSequence e) (he : Server.step env s e = some s') :
    s'.Ordered := by
  have d := (booked_step h.distinct he).distinct
  cases e with
  | run ok =>
    cases he
    exact h.waits (quiet_runStep env s ok).waits d
  | wake brk =>
    cases he
    refine h.waits ?_ d
    split
    · exact .of_eq rfl rfl rfl
    · exact .of_eq rfl rfl rfl
  | timer fired =>
    cases he
    have hw : Waits s (if fired then s.handleTimer env else s) := by
      split
      · exact waits_handleTimer h.distinct env
      · exact .of_eq rfl rfl rfl
    exact h.waits (hw.trans (.of_eq rfl rfl rfl)) d
  | request req =>
    have hw : Waits s { s with taken := s.taken + 1 } := .of_eq rfl rfl rfl
    exact h.waits (hw.trans (waits_receiveRequest he)) d
  | requestsDone =>
    cases he
    exact h.waits (.of_eq rfl rfl rfl) d
  | packet seq pac =>
    cases he
    have h' : ({ s with dequeued := s.dequeued + 1 } : Server).Ordered :=
      h.waits (.of_eq rfl rfl rfl) (h.distinct.congr rfl (Nat.le_refl _))
    have hh := h'.hear ⟨s.dequeued, seq, pac⟩
    obtain hw | ⟨c, hc, hst, hands⟩ :=
      handlePacket_queue env { s with dequeued := s.dequeued + 1 } ⟨s.dequeued, seq, pac⟩
    · exact hh.waits hw d
    · refine hh.hands hands d ⟨_, List.mem_append_right _ (List.mem_singleton.2 rfl)⟩ ?_ (mem_of_target hc)
      intro hd q hq
      by_cases hr : pac.flags &&& resend = 0
      · obtain ⟨b, hb⟩ := h.heard_of_mem hq
        exact ha.2.1 hr (q, b) hb
      · exact hi hr hd c hc hst q hq
  | packetsDone =>
    cases he
    exact h.waits (.of_eq rfl rfl rfl) d

/-- **Connections are ordered streams**, in every run in which data that was lost and sent again comes before all later
data of its connection: what was handed over is in the order of the ids, with no packet twice, and what waits for the
client's reads is the end of it. -/
theorem data_in_order (env : Env) {es : List Event} {x : Server}
    (h : Along (fun s e => Arrives s e ∧ InSequence s e) (step env) start es)
    (hx : runs (step env) start es = some x) :
    (∀ n, (x.dataSeqs n).Pairwise (· < ·)) ∧ ∀ c ∈ x.connections, c.packetQueue <:+ x.handedTo c.num := by
  have hstart : start.Ordered :=
    ⟨distinct_start, fun _ h => (by cases h), fun _ => List.Pairwise.nil, fun _ h => by cases h⟩
  have hI : x.Ordered := runs_inv Ordered (fun _ _ _ hI ha he => hI.step ha.1 ha.2 he) hstart h hx
  exact ⟨hI.sorted, hI.queue⟩

/-- A packet with data. -/
def dataPac (seq : Nat) (flags : UInt8) (connId : UInt16) : InPac :=
  ⟨0, seq, ⟨ptData, flags, connId, UInt16.ofNat seq, [UInt8.ofNat seq]⟩⟩

/-- Packet 3 is lost, packet 4 arrives, and packet 3 is sent again. -/
def lostAndResent : List Event :=
  greeting ++ pass [ask rtOpen 0] [bare 2 ptConnected 1] ++ pass [] [dataPac 4 0 1] ++ pass [] [dataPac 3 resend 1]

theorem resent_out_of_order : Along Enabled (step plenty) start lostAndResent ∧
    Along Arrives (step plenty) start lostAndResent ∧
    ∃ x : Server, runs (step plenty) start lostAndResent = some x ∧ x.dataSeqs 0 = [4, 3] ∧
      ¬(x.dataSeqs 0).Pairwise (· < ·) := by
  refine ⟨by decide +kernel, by decide +kernel, ?_⟩
  have h : (runs (step plenty) start lostAndResent).map (fun x => x.dataSeqs 0) = some [4, 3] := by
    decide +kernel
  obtain ⟨x, hx, he⟩ := Option.map_eq_some_iff.1 h
  refine ⟨x, hx, he, ?_⟩
  rw [he]
  decide

theorem data_in_order_resent : ∃ x : Server,
    runs (step plenty) start (greeting ++ pass [ask rtOpen 0] [bare 2 ptConnected 1] ++
      pass [] [dataPac 3 0 1, bare 5 ptPong 0, dataPac 4 resend 1]) = some x ∧ (x.dataSeqs 0).Pairwise (· < ·) := by
  obtain ⟨x, hx⟩ : ∃ x, runs (step plenty) start (greeting ++ pass [ask rtOpen 0] [bare 2 ptConnected 1] ++
      pass [] [dataPac 3 0 1, bare 5 ptPong 0, dataPac 4 resend 1]) = some x :=
    Option.isSome_iff_exists.1 (by decide +kernel)
  exact ⟨x, hx, (data_in_order plenty (by decide +kernel) hx).1 0⟩

end AmiPiBorg.Server
