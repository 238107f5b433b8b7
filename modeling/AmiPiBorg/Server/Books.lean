import AmiPiBorg.Server.Accounts

/-!
# Requests are answered, packets are released

The books of `Accounts` over whole runs from the start. Every request that was taken from the client port is replied to
once or waits on one connection, as long as no connection goes with requests on its queue (`requests_answered`); a
packet `PT_DISCONNECTED` that comes while a client reads loses the read (`disconnected_drops_read`). Every packet that
was taken from the reader is released once or waits on one connection, unless it is a `PT_NO_HANDLER`
(`packets_owned`), which stays with nobody (`noHandler_leaks`).
-/

set_option autoImplicit false

namespace AmiPiBorg.Server

open ProgLib

variable {env : Env} {s s' t : Server} {c c' : Connection} {ip : InPac} {req : Request} {e : Event} {es : List Event}

theorem distinct_start : start.Distinct := ⟨List.nodup_nil, fun _ h => by cases h⟩

/-- Runs keep the connections apart. -/
theorem distinct_run (h : runs (step env) start es = some s) : s.Distinct := by
  have ha : Along (fun _ _ => True) (step env) start es := along_of_forall (fun _ _ => trivial) es start
  exact runs_inv Distinct (fun _ _ _ d _ h => (booked_step d h).distinct) distinct_start ha h

/-! ## Requests -/

/-- The requests on the queues of the connections. -/
def waiting (s : Server) : List Nat := s.connections.flatMap fun c => c.reqQueue.map Request.num

/-- Every request that was taken is replied to once, or waits on one connection. -/
structure Answered (s : Server) : Prop where
  once : (s.replied.map Request.num).Nodup
  disjoint : s.waiting.Nodup
  waiting_iff : ∀ n, n ∈ s.waiting ↔ n < s.taken ∧ n ∉ s.replied.map Request.num
  replied_lt : ∀ n ∈ s.replied.map Request.num, n < s.taken

theorem answered_of_perm (h : s.requests.Perm (List.range s.taken)) : s.Answered := by
  have hn : (s.replied.map Request.num ++ s.waiting).Nodup := h.symm.nodup List.nodup_range
  have hm : ∀ n, n ∈ s.replied.map Request.num ++ s.waiting ↔ n < s.taken := by
    intro n
    exact h.mem_iff.trans List.mem_range
  obtain ⟨h₁, h₂, h₃⟩ := List.nodup_append.1 hn
  refine ⟨h₁, h₂, fun n => ⟨fun hw => ⟨(hm n).1 (List.mem_append_right _ hw), fun hr => h₃ n hr n hw rfl⟩, ?_⟩, ?_⟩
  · rintro ⟨hlt, hr⟩
    exact (List.mem_append.1 ((hm n).2 hlt)).resolve_left hr
  · intro n hr
    exact (hm n).1 (List.mem_append_left _ hr)

/-- The event loses no request: no connection goes with requests on its queue, and a connection can be made for a client
that opens one. -/
def RequestsSafe (env : Env) (s : Server) : Event → Prop
  | .packet _ pac => pac.type = ptDisconnected → ∀ c ∈ s.target pac.connId, c.reqQueue = []
  | .request req => req.connId = defaultConnection → req.type = rtOpen → (env.connection s.creations).isSome = true
  | _ => True

instance (env : Env) (s : Server) : (e : Event) → Decidable (RequestsSafe env s e)
  | .run _ => .isTrue trivial
  | .wake _ => .isTrue trivial
  | .timer _ => .isTrue trivial
  | .request _ => inferInstanceAs (Decidable (_ → _ → _))
  | .requestsDone => .isTrue trivial
  | .packet .. => inferInstanceAs (Decidable (_ → ∀ _ ∈ _, _))
  | .packetsDone => .isTrue trivial

theorem RequestsSafe.lostAt (h : RequestsSafe env s e) : (s.lostAt e).1 = [] := by
  cases e with
  | packet seq pac =>
    unfold Server.lostAt lostWith lostRequests
    dsimp only
    cases ht : s.target pac.connId with
    | none => rfl
    | some c =>
      dsimp only
      split
      · next hd => rw [h hd c ht, List.map_nil]
      · rfl
  | _ => rfl

theorem RequestsSafe.step_some (h : RequestsSafe env s e) : ∃ s', step env s e = some s' := by
  cases e with
  | request req =>
    unfold step receiveRequest
    dsimp only
    split
    · next hd =>
      unfold handleClientControlMessage createConnection
      dsimp only
      split
      · next ho =>
        obtain ⟨state, hs⟩ := Option.isSome_iff_exists.1 (h hd ho)
        rw [hs]
        exact ⟨_, rfl⟩
      split
      · exact ⟨_, rfl⟩
      split
      · exact ⟨_, rfl⟩
      · exact ⟨_, rfl⟩
    · split
      · exact ⟨_, rfl⟩
      · exact ⟨_, rfl⟩
  | _ => exact ⟨_, rfl⟩

/-- What holds between the events: the books of the requests are right. -/
structure InOrder (s : Server) : Prop where
  distinct : s.Distinct
  requests : s.requests.Perm (List.range s.taken)

theorem InOrder.step (hI : s.InOrder) (hs : RequestsSafe env s e) (h : Server.step env s e = some s') : s'.InOrder := by
  have hb := booked_step hI.distinct h
  refine ⟨hb.distinct, ?_⟩
  have hr := hb.requests
  rw [hs.lostAt, List.append_nil] at hr
  refine (hr.trans (hI.requests.append_left _)).trans ?_
  rw [hb.taken]
  cases e with
  | request req =>
    show ([s.taken] ++ List.range s.taken).Perm (List.range (s.taken + 1))
    rw [List.range_succ]
    exact List.perm_append_comm
  | _ => exact .refl _

/-- **Requests are answered exactly once**, as long as no connection goes with requests on its queue. -/
theorem requests_answered (env : Env) (es : List Event) (h : Along (RequestsSafe env) (step env) start es) :
    ∃ x : Server, runs (step env) start es = some x ∧ x.Answered := by
  have hstart : start.InOrder := ⟨distinct_start, .refl _⟩
  obtain ⟨x, hx, hI⟩ := runs_some InOrder (fun s e hI hs => by
    obtain ⟨s', he⟩ := hs.step_some
    exact ⟨s', he, hI.step hs he⟩) hstart h
  exact ⟨x, hx, answered_of_perm hI.requests⟩

/-! ### A read that is lost -/

/-- Pools that always have something, with zeros in it. -/
def plenty : Env := { packet := fun _ => true, connection := fun _ => some 0 }

/-- A call of `APB_WaitForMessage` in the loop of `APB_Run`, with these requests and packets. -/
def pass (reqs : List Request) (pacs : List InPac) : List Event :=
  [.run true, .wake false, .timer false] ++ reqs.map Event.request ++ [.requestsDone] ++
    (pacs.map fun ip => .packet ip.seq ip.pac) ++ [.packetsDone]

/-- A packet without data. -/
def bare (seq : Nat) (type : UInt8) (connId : UInt16) : InPac :=
  ⟨0, seq, ⟨type, 0, connId, UInt16.ofNat seq, []⟩⟩

/-- A request of a client. -/
def ask (type connId : UInt16) : Request :=
  { num := 0, type := type, connId := connId, handlerId := 1, state := .ok, actual := 0, length := 16, timeout := 0,
    data := [], timeoutTicks := 0 }

/-- The server starts, and the Pi says hello. -/
def greeting : List Event := [.run true, .run true, .run true] ++ pass [] [bare 1 ptHello 0]

/-- A client opens a connection and reads from it, and the Pi closes it. -/
def closedWhileReading : List Event :=
  greeting ++ pass [ask rtOpen 0] [bare 2 ptConnected 1] ++ pass [ask rtRead 1] [bare 3 ptDisconnected 1]

instance (s : Server) : (e : Event) → Decidable (Enabled s e)
  | .run _ => inferInstanceAs (Decidable (_ ∧ _))
  | .wake _ => inferInstanceAs (Decidable (_ = _))
  | .timer _ => inferInstanceAs (Decidable (_ ∧ _))
  | .request _ => inferInstanceAs (Decidable (_ ∧ _))
  | .requestsDone => inferInstanceAs (Decidable (_ = _))
  | .packet .. => inferInstanceAs (Decidable (_ = _))
  | .packetsDone => inferInstanceAs (Decidable (_ = _))

theorem disconnected_drops_read : Along Enabled (step plenty) start closedWhileReading ∧
    ∃ x : Server, runs (step plenty) start closedWhileReading = some x ∧ ¬x.Answered := by
  refine ⟨by decide +kernel, ?_⟩
  have h : (runs (step plenty) start closedWhileReading).map
      (fun x => (x.replied.map Request.num, x.waiting, x.taken)) = some ([0], [], 2) := by
    decide +kernel
  obtain ⟨x, hx, he⟩ := Option.map_eq_some_iff.1 h
  rw [Prod.mk.injEq, Prod.mk.injEq] at he
  refine ⟨x, hx, fun ha => ?_⟩
  -- request 1, the read, was taken and is nowhere
  have hw := (ha.waiting_iff 1).2
  rw [he.1, he.2.1, he.2.2] at hw
  exact absurd (hw (by decide)) (by decide)

theorem requests_answered_closed : ∃ x : Server,
    runs (step plenty) start (greeting ++ pass [ask rtOpen 0] [bare 2 ptConnected 1] ++
      pass [] [bare 3 ptDisconnected 1]) = some x ∧ x.Answered :=
  requests_answered plenty _ (by decide +kernel)

/-! ## Packets -/

/-- The packet was released once and is on no queue, or it is once on the queue of one connection and was not
released. -/
def Owned (s : Server) (n : Nat) : Prop :=
  ((s.released.map InPac.num).count n = 1 ∧ ∀ c ∈ s.connections, n ∉ c.packetQueue.map InPac.num) ∨
    n ∉ s.released.map InPac.num ∧ ∃ c ∈ s.connections, (c.packetQueue.map InPac.num).count n = 1 ∧
      ∀ b ∈ s.connections, n ∈ b.packetQueue.map InPac.num → b = c

/-- The packets on the queues of the connections. -/
def queued (s : Server) : List Nat := s.connections.flatMap fun c => c.packetQueue.map InPac.num

theorem mem_queued {n : Nat} : n ∈ s.queued ↔ ∃ c ∈ s.connections, n ∈ c.packetQueue.map InPac.num := List.mem_flatMap

theorem Owned.mem {n : Nat} (h : s.Owned n) : n ∈ s.packets := by
  obtain ⟨h, -⟩ | ⟨-, c, hc, h, -⟩ := h
  · exact List.mem_append_left _ (List.count_pos_iff.1 (by rw [h]; decide))
  · exact List.mem_append_right _ (mem_queued.2 ⟨c, hc, List.count_pos_iff.1 (by rw [h]; decide)⟩)

/-- What is there once has one owner. -/
theorem owned_of_count (d : s.Distinct) {n : Nat} (h : s.packets.count n = 1) : s.Owned n := by
  have hcount : (s.released.map InPac.num).count n + s.queued.count n = 1 := by
    rw [← List.count_append]
    exact h
  by_cases hq : n ∈ s.queued
  · right
    have hpos := List.count_pos_iff.2 hq
    have hq1 : s.queued.count n = 1 := by omega
    obtain ⟨c, hc, hn⟩ := mem_queued.1 hq
    refine ⟨List.count_eq_zero.1 (by omega), c, hc, ?_⟩
    obtain ⟨rest, hp, -, hr⟩ := Keyed.perm_flatMap (fun c : Connection => c.packetQueue.map InPac.num) d.nodup hc
    have hsum := hp.count_eq n
    rw [List.count_append] at hsum
    have hcpos := List.count_pos_iff.2 hn
    have hrest : rest.count n = 0 := by
      unfold queued at hq1
      omega
    refine ⟨by unfold queued at hq1; omega, fun b hb hbn => ?_⟩
    -- another connection with the packet would be among the rest
    by_contra hne
    have hnum : b.num ≠ c.num := fun e => hne (List.inj_on_of_nodup_map d.nodup hb hc e)
    have hmem : n ∈ (Keyed.remove Connection.num s.connections c.num).flatMap
        fun c => c.packetQueue.map InPac.num :=
      List.mem_flatMap.2 ⟨b, Keyed.mem_remove.2 ⟨hb, hnum⟩, hbn⟩
    exact List.count_eq_zero.1 hrest (hr.mem_iff.1 hmem)
  · left
    rw [List.count_eq_zero.2 hq] at hcount
    refine ⟨hcount, fun c hc hn => hq (mem_queued.2 ⟨c, hc, hn⟩)⟩

/-- The packet is not a `PT_NO_HANDLER` for a connection. -/
def Kept (s : Server) (ip : InPac) : Prop := ip.pac.type = ptNoHandler → s.target ip.pac.connId = none

instance (s : Server) (ip : InPac) : Decidable (s.Kept ip) := inferInstanceAs (Decidable (_ → _))

/-- The condition for an event. -/
def PacketKept (s : Server) : Event → Prop
  | .packet seq pac => s.Kept ⟨s.dequeued, seq, pac⟩
  | _ => True

theorem lostWith_snd (s : Server) (ip : InPac) : (s.lostWith ip).2 = [] ∧ s.Kept ip ∨
    (s.lostWith ip).2 = [ip.num] ∧ ¬s.Kept ip := by
  unfold lostWith lostPackets Kept
  cases ht : s.target ip.pac.connId with
  | none => exact .inl ⟨rfl, fun _ => rfl⟩
  | some c =>
    dsimp only
    split
    · next hn => exact .inr ⟨rfl, fun h => by cases h hn⟩
    · next hn => exact .inl ⟨rfl, fun h => absurd h hn⟩

theorem PacketKept.lostAt (h : s.PacketKept e) : (s.lostAt e).2 = [] := by
  cases e with
  | packet seq pac =>
    obtain ⟨hl, -⟩ | ⟨-, hn⟩ := lostWith_snd s ⟨s.dequeued, seq, pac⟩
    · exact hl
    · exact absurd h hn
  | _ => rfl

/-- The packet that comes in is owned afterwards if and only if it is no `PT_NO_HANDLER` for a connection. -/
theorem owned_handlePacket (env : Env) (d : s.Distinct) (hip : ip.num ∉ s.packets) :
    (s.handlePacket env ip).Owned ip.num ↔ s.Kept ip := by
  have ha := accounted_handlePacket env d ip
  have hc := ha.packets.count_eq ip.num
  rw [List.count_append, List.count_append, List.count_singleton_self, List.count_eq_zero.2 hip] at hc
  obtain ⟨hl, hk⟩ | ⟨hl, hk⟩ := lostWith_snd s ip
  · rw [hl, List.count_nil] at hc
    exact iff_of_true (owned_of_count ha.distinct (by omega)) hk
  · rw [hl, List.count_singleton_self] at hc
    refine iff_of_false (fun ho => ?_) hk
    have := List.count_pos_iff.2 ho.mem
    omega

/-- The books of the packets are right. -/
structure InStock (s : Server) : Prop where
  distinct : s.Distinct
  packets : s.packets.Perm (List.range s.dequeued)

theorem InStock.step (hI : s.InStock) (hk : s.PacketKept e) (h : Server.step env s e = some s') : s'.InStock := by
  have hb := booked_step hI.distinct h
  refine ⟨hb.distinct, ?_⟩
  have hp := hb.packets
  rw [hk.lostAt, List.append_nil] at hp
  refine (hp.trans (hI.packets.append_left _)).trans ?_
  rw [hb.dequeued]
  cases e with
  | packet seq pac =>
    show ([s.dequeued] ++ List.range s.dequeued).Perm (List.range (s.dequeued + 1))
    rw [List.range_succ]
    exact List.perm_append_comm
  | _ => exact .refl _

/-- As many packets wait as were taken and not released. -/
theorem InStock.length (hI : s.InStock) :
    ((List.range s.dequeued).filter fun n => n ∉ s.released.map InPac.num).length =
      (s.connections.map fun c => c.packetQueue.length).sum := by
  have hn : (s.released.map InPac.num ++ s.queued).Nodup := hI.packets.symm.nodup List.nodup_range
  have hp := hI.packets.symm.filter fun n => n ∉ s.released.map InPac.num
  rw [hp.length_eq, Server.packets, List.filter_append, List.length_append]
  have h₁ : (s.released.map InPac.num).filter (fun n => n ∉ s.released.map InPac.num) = [] := by
    apply List.filter_eq_nil_iff.2
    intro n hr
    simpa using hr
  have h₂ : s.queued.filter (fun n => n ∉ s.released.map InPac.num) = s.queued := by
    apply List.filter_eq_self.2
    intro n hq
    have hd := (List.nodup_append.1 hn).2.2
    exact decide_eq_true fun hr => hd n hr n hq rfl
  unfold queued at h₂
  rw [h₁, h₂, List.length_nil, Nat.zero_add, List.length_flatMap]
  simp only [List.length_map]

/-- **Every packet has one owner**, but for `PT_NO_HANDLER`. A call of `APB_HandlePacket` leaves its packet owned if and
only if it is no such packet for a connection; and in a run without them every packet that was taken is owned, and as
many packets wait on connections as were not released. -/
theorem packets_owned (env : Env) :
    (∀ (s : Server) (ip : InPac), s.Distinct → ip.num ∉ s.packets →
      ((s.handlePacket env ip).Owned ip.num ↔ s.Kept ip)) ∧
    ∀ (es : List Event) (x : Server), Along PacketKept (step env) start es → runs (step env) start es = some x →
      (∀ n < x.dequeued, x.Owned n) ∧
      ((List.range x.dequeued).filter fun n => n ∉ x.released.map InPac.num).length =
        (x.connections.map fun c => c.packetQueue.length).sum := by
  refine ⟨fun s ip d hip => owned_handlePacket env d hip, fun es x hk hx => ?_⟩
  have hI : x.InStock := runs_inv InStock (fun _ _ _ hI hk h => hI.step hk h) ⟨distinct_start, .refl _⟩ hk hx
  refine ⟨fun n hn => owned_of_count hI.distinct ?_, hI.length⟩
  rw [hI.packets.count_eq n, List.count_eq_one_of_mem List.nodup_range (List.mem_range.2 hn)]

/-- A client opens a connection, and the Pi has no handler for it. -/
def noHandler : List Event := greeting ++ pass [ask rtOpen 0] [bare 2 ptNoHandler 1]

theorem noHandler_leaks : Along Enabled (step plenty) start noHandler ∧
    ∃ x : Server, runs (step plenty) start noHandler = some x ∧ ¬x.Owned 1 ∧
      ((List.range x.dequeued).filter fun n => n ∉ x.released.map InPac.num).length ≠
        (x.connections.map fun c => c.packetQueue.length).sum := by
  refine ⟨by decide +kernel, ?_⟩
  have h : (runs (step plenty) start noHandler).map (fun x => (x.packets, x.released.map InPac.num, x.dequeued,
      (x.connections.map fun c => c.packetQueue.length).sum)) = some ([0], [0], 2, 0) := by
    decide +kernel
  obtain ⟨x, hx, he⟩ := Option.map_eq_some_iff.1 h
  rw [Prod.mk.injEq, Prod.mk.injEq, Prod.mk.injEq] at he
  refine ⟨x, hx, fun ho => ?_, ?_⟩
  · have hm := ho.mem
    rw [he.1] at hm
    exact absurd hm (by decide)
  · rw [he.2.1, he.2.2.1, he.2.2.2]
    decide

/-- A packet for a connection that is there is owned. -/
theorem packets_owned_data :
    (start.withNew csConnected).Distinct ∧
      (((start.withNew csConnected).handlePacket plenty (bare 1 ptData 1)).Owned 0) := by
  have d : (start.withNew csConnected).Distinct := ⟨by decide, by decide⟩
  exact ⟨d, ((packets_owned plenty).1 _ (bare 1 ptData 1) d (by decide)).2 (by decide)⟩

end AmiPiBorg.Server
