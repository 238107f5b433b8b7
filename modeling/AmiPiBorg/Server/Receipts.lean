import AmiPiBorg.Server.Readers

/-!
# What clients read

The data that the reads on a connection id are completed with is, in order and each piece at most once, that of packets
which came for this id (`reads_in_stream`). Ids are not unique: when several connections have one, packets and requests
find the first of them, so only that one has packets (`Received.behind`), and those that come after it start with none.
-/

set_option autoImplicit false

namespace AmiPiBorg.Server

open ProgLib List

variable {env : Env} {s s' t : Server} {c c' : Connection} {ip : InPac} {req : Request} {e : Event} {es : List Event}
  {act : Act} {out reqs : List Request} {ips : List InPac} {pacs : List Incoming} {k : UInt16}

/-- The request is a read that was completed on this id. -/
def ReadOf (k : UInt16) (r : Request) : Prop := r.type = rtRead ∧ r.state = .ok ∧ r.connId = k

instance (k : UInt16) (r : Request) : Decidable (ReadOf k r) := inferInstanceAs (Decidable (_ ∧ _))

/-- What the reads on this id were completed with. -/
def readOf (k : UInt16) (rs : List Request) : List (List UInt8) := (rs.filter fun r => ReadOf k r).map Request.data

/-- What the packets for this id carry. -/
def sentTo (k : UInt16) (pacs : List Incoming) : List (List UInt8) :=
  (pacs.filter fun pac => pac.connId = k).map Incoming.data

/-- The payloads of packets of the server. -/
def payloads (ips : List InPac) : List (List UInt8) := ips.map fun ip => ip.pac.data

/-- The packets that wait on the connections with this id. -/
def waitingFor (k : UInt16) (cs : List Connection) : List InPac :=
  (cs.filter fun c => c.id = k).flatMap Connection.packetQueue

@[simp] theorem readOf_append (k : UInt16) (rs rs' : List Request) : readOf k (rs ++ rs') = readOf k rs ++ readOf k rs' := by
  simp [readOf]

@[simp] theorem sentTo_append (k : UInt16) (ps ps' : List Incoming) : sentTo k (ps ++ ps') = sentTo k ps ++ sentTo k ps' := by
  simp [sentTo]

@[simp] theorem payloads_append (ips ips' : List InPac) : payloads (ips ++ ips') = payloads ips ++ payloads ips' := by
  simp [payloads]

@[simp] theorem waitingFor_append (k : UInt16) (cs cs' : List Connection) :
    waitingFor k (cs ++ cs') = waitingFor k cs ++ waitingFor k cs' := by
  simp [waitingFor]

theorem waitingFor_cons (k : UInt16) (c : Connection) (cs : List Connection) :
    waitingFor k (c :: cs) = (if c.id = k then c.packetQueue else []) ++ waitingFor k cs := by
  unfold waitingFor
  by_cases h : c.id = k
  · rw [filter_cons_of_pos (by simpa using h), if_pos h, flatMap_cons]
  · rw [filter_cons_of_neg (by simpa using h), if_neg h, nil_append]

theorem waitingFor_eq_nil {cs : List Connection} (h : ∀ c ∈ cs, c.id = k → c.packetQueue = []) : waitingFor k cs = [] := by
  refine flatMap_eq_nil_iff.2 fun c hc => ?_
  rw [mem_filter, decide_eq_true_eq] at hc
  exact h c hc.1 hc.2

theorem readOf_eq_nil (h : ∀ r ∈ reqs, ¬ReadOf k r) : readOf k reqs = [] := by
  rw [readOf, filter_eq_nil_iff.2 fun r hr => by simpa using h r hr, map_nil]

/-! ## One connection -/

/-- A delivery completes reads with the first packets, and leaves the others. -/
theorem deliver_readOf (k : UInt16) (ips : List InPac) (reqs : List Request) :
    readOf k (deliver ips reqs).replied ++ payloads (deliver ips reqs).packets <+ payloads ips := by
  fun_induction deliver ips reqs with
  | case1 ips => exact Sublist.refl _
  | case2 reqs => exact Sublist.refl _
  | case3 ip ips r reqs toCopy hlt d ih =>
    rw [readOf, filter_cons_of_neg (by simp [ReadOf])]
    exact ih
  | case4 ip ips r reqs toCopy hle d ih =>
    show readOf k ([_] ++ d.replied) ++ _ <+ [ip.pac.data] ++ payloads ips
    rw [readOf_append, append_assoc]
    refine Sublist.append ?_ ih
    exact Sublist.map Request.data (filter_sublist (l := [_]))

/-- What comes, as far as packets go. -/
def Act.payloads : Act → List (List UInt8)
  | .packet ip => [ip.pac.data]
  | _ => []

/-- All requests on the queue are to the connection. -/
def Own (c : Connection) : Prop := ∀ r ∈ c.reqQueue, r.connId = c.id

/-- What a move completes, and what it leaves on the queue. -/
structure Completes (c : Connection) (arrive : List (List UInt8)) (out : List Request) (c' : Connection) : Prop where
  other : ∀ k ≠ c.id, readOf k out = []
  read : readOf c.id out ++ payloads c'.packetQueue <+ payloads c.packetQueue ++ arrive
  own : Own c'

/-- A move that completes no read. -/
theorem Completes.plain (h : ∀ r ∈ out, r.type = rtRead → r.state ≠ .ok) (hq : c'.packetQueue = c.packetQueue)
    (ho : Own c') (arrive : List (List UInt8)) : Completes c arrive out c' := by
  have hnil : ∀ k, readOf k out = [] := fun k => readOf_eq_nil fun r hr hrd => h r hr hrd.1 hrd.2.1
  refine ⟨fun k _ => hnil k, ?_, ho⟩
  rw [hnil, hq]
  exact sublist_append_left _ _

theorem completes_push (h : Own c) : Completes c [] (push c).1 (push c).2 := by
  unfold push
  split
  · exact .plain (fun _ hr => absurd hr not_mem_nil) rfl h []
  · refine ⟨fun k hk => readOf_eq_nil fun r hr hrd => ?_, ?_, fun r hr => ?_⟩
    · obtain ⟨q, hq, he⟩ := deliver_mem Request.connId (fun _ _ _ _ => rfl) hr
      exact hk (hrd.2.2.symm.trans (he.symm.trans (h q hq)))
    · rw [append_nil]
      exact deliver_readOf c.id c.packetQueue c.reqQueue
    · exact h r ((deliver_requests c.packetQueue c.reqQueue).subset hr)

theorem Own.received (h : Own c) (req : Request) : ∀ r ∈ c.reqQueue ++ [received c req], r.connId = c.id := by
  intro r hr
  rcases mem_append.1 hr with hr | hr
  · exact h r hr
  · rw [mem_singleton.1 hr]
    rfl

/-- **What every move completes.** -/
theorem Move.completes (m : Move c act out c') (h : Own c) : Completes c act.payloads out c' := by
  cases m with
  | connected _ ha | noHandler _ ha =>
    refine .plain (fun r hr ht => ?_) ?_ ?_ _
    · exact absurd ht (ha.not_read r hr)
    · rfl
    · exact fun r hr => h r (ha.subset hr)
  | dropped => exact .plain (fun _ hr => absurd hr not_mem_nil) rfl h _
  | @queued ip =>
    have hp := completes_push (c := { c with packetQueue := c.packetQueue ++ [ip] }) h
    refine ⟨hp.other, hp.read.trans ?_, hp.own⟩
    rw [append_nil, payloads_append]
    exact Sublist.refl _
  | @opened req =>
    refine .plain (fun _ hr => ?_) ?_ ?_ _
    · exact absurd hr not_mem_nil
    · rfl
    · exact h.received req
  | @read req =>
    have hp := completes_push (c := { c with reqQueue := c.reqQueue ++ [Server.received c req] }) (h.received req)
    exact ⟨hp.other, hp.read, hp.own⟩
  | @answered req r _ _ _ hr =>
    refine .plain (fun q hq ht => ?_) ?_ ?_ _
    · obtain rfl := mem_singleton.1 hq
      exact (hr ht).1
    · rfl
    · exact h
  | tick =>
    refine .plain (fun r hr _ hok => ?_) ?_ (fun r hr => ?_) _
    · exact absurd (hok.symm.trans (tickRequests_state hr)) (by decide)
    · rfl
    · obtain ⟨q, hq, n, rfl, -⟩ := tickRequests_left hr
      exact h q hq

/-! ## All connections -/

/-- What is known of the requests that were completed, when the packets `pacs` have come. -/
structure Received (pacs : List Incoming) (s : Server) : Prop where
  nodup : (s.connections.map Connection.num).Nodup
  own : ∀ c ∈ s.connections, Own c
  /-- A connection that has the id of one before it has no packets. -/
  behind : s.connections.Pairwise fun c c' => c.id = c'.id → c'.packetQueue = []
  stream : ∀ k, readOf k s.replied ++ payloads (waitingFor k s.connections) <+ sentTo k pacs

theorem Received.of_eq (h : Received pacs s) (hc : s'.connections = s.connections) (hr : s'.replied = s.replied) :
    Received pacs s' := by
  refine ⟨hc ▸ h.nodup, fun c hm => h.own c (hc ▸ hm), hc ▸ h.behind, fun k => ?_⟩
  rw [hr, hc]
  exact h.stream k

/-- More packets may have come. -/
theorem Received.mono (h : Received pacs s) (more : List Incoming) : Received (pacs ++ more) s :=
  ⟨h.nodup, h.own, h.behind, fun k => by
    rw [sentTo_append]
    exact (h.stream k).trans (sublist_append_left _ _)⟩

/-- A request that is no completed read is replied to. -/
theorem Received.reply (h : Received pacs s) {r : Request} (hr : r.type = rtRead → r.state ≠ .ok) :
    Received pacs (s.reply r) := by
  refine ⟨h.nodup, h.own, h.behind, fun k => ?_⟩
  have hnil : readOf k [r] = [] := readOf_eq_nil fun q hq hrd => by
    rw [mem_singleton.1 hq] at hrd
    exact hr hrd.1 hrd.2.1
  show readOf k (s.replied ++ [r]) ++ _ <+ _
  rw [readOf_append, hnil, append_nil]
  exact h.stream k

/-- Connections go. -/
theorem Received.fewer (h : Received pacs s) (hc : s'.connections <+ s.connections) (hr : s'.replied = s.replied) :
    Received pacs s' := by
  refine ⟨h.nodup.sublist (hc.map _), fun c hm => h.own c (hc.subset hm), h.behind.sublist hc, fun k => ?_⟩
  rw [hr]
  refine Sublist.trans (Sublist.append_left ?_ _) (h.stream k)
  exact ((hc.filter _).flatMap Connection.packetQueue).map fun ip => ip.pac.data

/-- **One connection changes**: it is the first with its id, or its packets stay. -/
theorem Received.change {arrive : List (List UInt8)} (h : Received pacs s) (hc : c ∈ s.connections)
    (hconn : s'.connections = Keyed.put Connection.num s.connections c') (hnum : c'.num = c.num) (hid : c'.id = c.id)
    (hr : s'.replied = s.replied ++ out) (hcomp : Completes c arrive out c')
    (hfirst : s.findConnection c.id = some c ∨ c'.packetQueue = c.packetQueue ∧ arrive = []) {more : List Incoming}
    (harrive : arrive <+ sentTo c.id more) : Received (pacs ++ more) s' := by
  obtain ⟨l, r, hsplit, hl⟩ : ∃ l r, s.connections = l ++ c :: r ∧
      ((∀ b ∈ l, b.id ≠ c.id) ∨ c'.packetQueue = c.packetQueue ∧ arrive = []) := by
    rcases hfirst with hf | hq
    · obtain ⟨-, l, r, hsplit, hl⟩ := find?_eq_some_iff_append.1 hf
      exact ⟨l, r, hsplit, .inl fun b hb => by simpa using hl b hb⟩
    · obtain ⟨l, r, hsplit⟩ := append_of_mem hc
      exact ⟨l, r, hsplit, .inr hq⟩
  have hput : s'.connections = l ++ c' :: r := by
    rw [hconn, hsplit]
    exact Keyed.put_append_cons (by rw [← hsplit]; exact h.nodup) hnum
  have hb := h.behind
  rw [hsplit, pairwise_append, pairwise_cons] at hb
  obtain ⟨hbl, ⟨hbc, hbr⟩, hbx⟩ := hb
  refine ⟨?_, fun b hm => ?_, ?_, fun k => ?_⟩
  · rw [hconn, Keyed.map_key_put]
    exact h.nodup
  · rw [hconn] at hm
    rcases Keyed.mem_put hm with rfl | ⟨hm, -⟩
    · exact hcomp.own
    · exact h.own b hm
  · rw [hput, pairwise_append, pairwise_cons]
    refine ⟨hbl, ⟨fun b hm he => hbc b hm (hid.symm.trans he), hbr⟩, fun a ha b hm he => ?_⟩
    rcases mem_cons.1 hm with rfl | hm
    · rcases hl with hl | ⟨hq, -⟩
      · exact absurd (he.trans hid) (hl a ha)
      · rw [hq]
        exact hbx a ha c mem_cons_self (he.trans hid)
    · exact hbx a ha b (mem_cons_of_mem _ hm) he
  · have hs := h.stream k
    rw [hsplit, waitingFor_append, waitingFor_cons] at hs
    rw [hr, hput, waitingFor_append, waitingFor_cons, hid, readOf_append, sentTo_append]
    by_cases hk : c.id = k
    · subst hk
      rw [if_pos rfl] at hs ⊢
      rcases hl with hl | ⟨hq, ha⟩
      · rw [waitingFor_eq_nil fun b hb he => absurd he (hl b hb), waitingFor_eq_nil fun b hb he => hbc b hb he.symm,
          nil_append, append_nil] at hs ⊢
        rw [append_assoc]
        refine Sublist.trans (Sublist.append_left hcomp.read _) ?_
        rw [← append_assoc]
        exact hs.append harrive
      · have hnil : readOf c.id out = [] := by
          have hle := hcomp.read.length_le
          rw [hq, ha, append_nil, length_append] at hle
          exact length_eq_zero_iff.1 (by omega)
        rw [hnil, append_nil, hq]
        exact hs.trans (sublist_append_left _ _)
    · rw [if_neg hk] at hs ⊢
      rw [hcomp.other k (Ne.symm hk), append_nil]
      exact hs.trans (sublist_append_left _ _)

theorem Received.moved (h : Received pacs s) (hc : c ∈ s.connections) (hm : Moved s c act s')
    (hfirst : ∀ out c', Move c act out c' →
      s.findConnection c.id = some c ∨ c'.packetQueue = c.packetQueue ∧ act.payloads = [])
    {more : List Incoming} (harrive : act.payloads <+ sentTo c.id more) : Received (pacs ++ more) s' := by
  obtain ⟨out, c', m, hr, hconn⟩ := hm
  exact h.change hc hconn m.num m.id hr (m.completes (h.own c hc)) (hfirst out c' m) harrive

theorem findConnection_of_target (h : s.target k = some c) : s.findConnection c.id = some c := by
  rw [id_of_target h]
  unfold target at h
  split at h
  · cases h
  · exact h

/-- The Pi has closed a connection. -/
theorem handlePacket_closes (env : Env) (s : Server) (ht : ip.pac.type = ptDisconnected) :
    (s.handlePacket env ip).connections <+ s.connections := by
  have hn : ((s.hear ip).noteId env ip).connections = s.connections := (quiet_noteId env (s.hear ip) ip).connections
  rw [handlePacket_eq, ← hn]
  generalize (s.hear ip).noteId env ip = t
  unfold dispatch
  split
  · obtain ⟨t', hq, he⟩ := handleControlPacket_eq env t ip
    rw [he]
    exact hq.connections ▸ Sublist.refl _
  · split
    · have hq := quiet_send env t sizeofPacket ⟨none, ip.pac.connId, ptNoConnection, []⟩ rfl
      exact hq.connections ▸ Sublist.refl _
    · rw [handleConnectionPacket, if_neg (by rw [ht]; decide), if_pos ht, destroyConnection,
        if_neg (show ¬csDisconnected < csDisconnecting by decide)]
      exact filter_sublist

theorem Received.checkRequestTimeouts (h : Received pacs s) : Received pacs s.checkRequestTimeouts := by
  apply Keyed.foldl_inv connections (Received pacs) _ h.nodup (fun _ hb => hb) h
  intro t c ht hc
  refine ⟨?_, fun b hb hne => Keyed.mem_put_of_ne hb hne⟩
  have hmoved : Received (pacs ++ []) (t.cnnCheckRequestTimeouts c) := by
    refine ht.moved hc (cnnCheckRequestTimeouts_moved t c) (fun out c' m => .inr ?_) (nil_sublist _)
    cases m
    exact ⟨rfl, rfl⟩
  rwa [append_nil] at hmoved

/-- **A request** may complete reads with what waits. -/
theorem Received.receiveRequest (h : Received pacs s) (d : s.Distinct) (he : s.receiveRequest env req = some s') :
    Received (pacs ++ []) s' := by
  obtain ⟨t, r, hq, rfl, hr⟩ | ⟨c, r, hc, -, hm⟩ | ⟨state, r, hm⟩ := receiveRequest_moved d he
  · exact ((h.of_eq hq.connections hq.replied).reply hr).mono []
  · exact h.moved (mem_of_target hc) hm (fun _ _ _ => .inl (findConnection_of_target hc)) (nil_sublist _)
  · have hnew : Received pacs (s.withNew state) := by
      refine ⟨(accounted_withNew d state).distinct.nodup, fun c hc => ?_, ?_, fun k => ?_⟩
      · rcases mem_append.1 hc with hc | hc
        · exact h.own c hc
        · rw [mem_singleton.1 hc]
          exact fun r hr => absurd hr not_mem_nil
      · refine pairwise_append.2 ⟨h.behind, pairwise_singleton _ _, fun b _ c hc _ => ?_⟩
        rw [mem_singleton.1 hc]
        rfl
      · have hw : waitingFor k (s.withNew state).connections = waitingFor k s.connections := by
          show waitingFor k (s.connections ++ [_]) = _
          have hnil : waitingFor k [s.newConnection state] = [] := waitingFor_eq_nil fun c hc _ => by
            rw [mem_singleton.1 hc]
            rfl
          rw [waitingFor_append, hnil, append_nil]
        rw [hw]
        exact h.stream k
    -- a new connection has no packets, and gets none
    refine hnew.moved (mem_append_right _ (mem_singleton_self _)) hm (fun out c' m => .inr ⟨?_, rfl⟩) (nil_sublist _)
    have hc := (m.completes fun r hr => absurd hr not_mem_nil).read
    have hle := hc.length_le
    simp only [Act.payloads, payloads, newConnection, map_nil, append_nil, length_append, length_map, length_nil,
      Nat.le_zero, Nat.add_eq_zero_iff, length_eq_zero_iff] at hle
    exact hle.2

/-- **A packet** may complete reads that wait. -/
theorem Received.handlePacket (h : Received pacs s) (d : s.Distinct) (env : Env) (ip : InPac) :
    Received (pacs ++ [ip.pac]) (s.handlePacket env ip) := by
  rcases handlePacket_moved env d ip with ⟨-, h₁, h₂⟩ | ⟨c, hc, hm | ⟨ht, h₂, -⟩⟩
  · exact (h.of_eq h₁ h₂).mono _
  · refine h.moved (mem_of_target hc) hm (fun _ _ _ => .inl (findConnection_of_target hc)) ?_
    simp [Act.payloads, sentTo, id_of_target hc]
  · exact (h.fewer (handlePacket_closes env s ht) h₂).mono _

/-- **Every step.** -/
theorem Received.step (h : Received pacs s) (d : s.Distinct) (he : Server.step env s e = some s') :
    Received (pacs ++ arrived [e]) s' := by
  cases e with
  | run ok =>
    cases he
    have hq := quiet_runStep env s ok
    exact (h.of_eq hq.connections hq.replied).mono []
  | wake brk =>
    cases he
    refine Received.mono ?_ []
    split
    · exact h.of_eq rfl rfl
    · exact h.of_eq rfl rfl
  | timer fired =>
    cases he
    have ht : Received pacs (if fired then s.handleTimer env else s) := by
      split
      · unfold handleTimer
        dsimp only
        split
        · exact h.of_eq rfl rfl
        · have hq := (quiet_checkPing s).trans (quiet_nextPing env s.checkPing)
          exact (h.of_eq hq.connections hq.replied).checkRequestTimeouts.of_eq rfl rfl
        · exact h.of_eq rfl rfl
        · exact h.of_eq rfl rfl
      · exact h
    refine Received.mono (ht.of_eq ?_ ?_) [] <;> rfl
  | request req =>
    have h' : Received pacs { s with taken := s.taken + 1 } := h.of_eq rfl rfl
    exact h'.receiveRequest (d.congr rfl (Nat.le_refl _)) he
  | requestsDone =>
    cases he
    refine Received.mono (h.of_eq ?_ ?_) [] <;> rfl
  | packet seq pac =>
    cases he
    have h' : Received pacs { s with dequeued := s.dequeued + 1 } := h.of_eq rfl rfl
    exact h'.handlePacket (d.congr rfl (Nat.le_refl _)) env ⟨s.dequeued, seq, pac⟩
  | packetsDone =>
    cases he
    refine Received.mono (h.of_eq ?_ ?_) [] <;> rfl

/-! ## Runs -/

theorem received_start : Received [] start :=
  ⟨nodup_nil, fun _ hc => absurd hc not_mem_nil, .nil, fun _ => Sublist.refl _⟩

theorem received_run {x : Server} : ∀ {es : List Event} {s : Server} {pacs : List Incoming}, Received pacs s → s.Distinct →
    runs (step env) s es = some x → Received (pacs ++ arrived es) x
  | [], _, pacs, h, _, hx => by
    cases hx
    exact h.mono []
  | e :: es, s, pacs, h, d, hx => by
    obtain ⟨s', hs, hx⟩ := runs_cons_some hx
    have h' := received_run (h.step d hs) (booked_step d hs).distinct hx
    rwa [append_assoc, arrived, arrived, ← filterMap_append] at h'

/-- **Clients read streams**: what the reads on an id are completed with, and behind it what waits on it, are payloads of
packets that came for this id, in their order and each at most once. -/
theorem reads_in_stream (env : Env) (es : List Event) (x : Server) (hx : runs (step env) start es = some x) (k : UInt16) :
    readOf k x.replied ++ payloads (waitingFor k x.connections) <+ sentTo k (arrived es) :=
  (received_run received_start distinct_start hx).stream k

/-- Two packets come, and one read. -/
theorem reads_in_stream_two : ∃ x : Server,
    runs (step plenty) start (greeting ++ pass [ask rtOpen 0] [bare 2 ptConnected 1] ++
      pass [ask rtRead 1] [dataPac 3 0 1, dataPac 4 0 1]) = some x ∧
    readOf 1 x.replied = [[3]] ∧ readOf 1 x.replied ++ payloads (waitingFor 1 x.connections) <+ [[], [3], [4]] := by
  have hx : (runs (step plenty) start (greeting ++ pass [ask rtOpen 0] [bare 2 ptConnected 1] ++
      pass [ask rtRead 1] [dataPac 3 0 1, dataPac 4 0 1])).map (fun x => readOf 1 x.replied) = some [[3]] := by
    decide +kernel
  obtain ⟨x, hx, hr⟩ := Option.map_eq_some_iff.1 hx
  exact ⟨x, hx, hr, reads_in_stream plenty _ x hx 1⟩

end AmiPiBorg.Server
