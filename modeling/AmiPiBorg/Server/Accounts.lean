import AmiPiBorg.Server.Effects

/-!
# Who has the requests and the packets

`requests s` are the requests that were replied to and those that wait on a connection, `packets s` the packets that
were released and those that wait on a connection. What the connections do moves entries between the two parts of each
list, up to order (`Balanced`). Only two things take entries away: a connection that goes with requests on its queue,
and a packet `PT_NO_HANDLER`, which is put nowhere (`lostRequests`, `lostPackets`).
-/

set_option autoImplicit false

namespace AmiPiBorg.Server

open ProgLib

variable {env : Env} {s s' t : Server} {c c' : Connection} {ip : InPac} {req : Request}

/-- The connections are told apart by their numbers. -/
structure Distinct (s : Server) : Prop where
  nodup : (s.connections.map Connection.num).Nodup
  lt : ∀ c ∈ s.connections, c.num < s.creations

/-- The requests that were replied to, and those that wait. -/
def requests (s : Server) : List Nat :=
  s.replied.map Request.num ++ s.connections.flatMap fun c => c.reqQueue.map Request.num

/-- The packets that were released, and those that wait. -/
def packets (s : Server) : List Nat :=
  s.released.map InPac.num ++ s.connections.flatMap fun c => c.packetQueue.map InPac.num

/-- Work on a connection that loses nothing, of the requests `rs` and the packets `ps` that come in either. -/
structure Balanced (s : Server) (c : Connection) (rs ps : List Nat) (s' : Server) (c' : Connection) : Prop where
  connections : s'.connections = s.connections
  creations : s'.creations = s.creations
  taken : s'.taken = s.taken
  dequeued : s'.dequeued = s.dequeued
  num : c'.num = c.num
  requests : (s'.replied.map Request.num ++ c'.reqQueue.map Request.num).Perm
    (rs ++ (s.replied.map Request.num ++ c.reqQueue.map Request.num))
  packets : (s'.released.map InPac.num ++ c'.packetQueue.map InPac.num).Perm
    (ps ++ (s.released.map InPac.num ++ c.packetQueue.map InPac.num))

theorem Balanced.refl (s : Server) (c : Connection) : Balanced s c [] [] s c :=
  ⟨rfl, rfl, rfl, rfl, rfl, .refl _, .refl _⟩

theorem Balanced.trans {c'' : Connection} {rs ps : List Nat} (h : Balanced s c rs ps s' c')
    (h' : Balanced s' c' [] [] t c'') : Balanced s c rs ps t c'' :=
  ⟨h'.connections.trans h.connections, h'.creations.trans h.creations, h'.taken.trans h.taken,
    h'.dequeued.trans h.dequeued, h'.num.trans h.num, h'.requests.trans h.requests, h'.packets.trans h.packets⟩

/-- The state of the connection does not matter. -/
theorem balanced_state (s : Server) (c : Connection) (state : ConnectionState) :
    Balanced s c [] [] s { c with state := state } :=
  ⟨rfl, rfl, rfl, rfl, rfl, .refl _, .refl _⟩

/-- A packet comes to the end of a queue. -/
theorem balanced_queue_packet (s : Server) (c : Connection) (ip : InPac) : Balanced s c [] [ip.num]
    { s with handed := s.handed ++ [(c.num, ip)] } { c with packetQueue := c.packetQueue ++ [ip] } := by
  refine ⟨rfl, rfl, rfl, rfl, rfl, .refl _, ?_⟩
  simp only [List.map_append, List.map_cons, List.map_nil]
  rw [← List.append_assoc]
  exact List.perm_append_comm

/-- A request comes to the end of a queue. -/
theorem balanced_queue_request (s : Server) (c : Connection) (req : Request) (handlerId : UInt16) :
    Balanced s c [req.num] [] s { c with handlerId := handlerId, reqQueue := c.reqQueue ++ [req] } := by
  refine ⟨rfl, rfl, rfl, rfl, rfl, ?_, .refl _⟩
  simp only [List.map_append, List.map_cons, List.map_nil]
  rw [← List.append_assoc]
  exact List.perm_append_comm

/-! ## What connections do -/

theorem balanced_cnnConnect (env : Env) (s : Server) (c : Connection) :
    Balanced s c [] [] (s.cnnConnect env c).1 (s.cnnConnect env c).2 := by
  obtain ⟨os, state, h, -⟩ := cnnConnect_eq env s c
  rw [h]
  exact ⟨rfl, rfl, rfl, rfl, rfl, .refl _, .refl _⟩

theorem balanced_disconnect (env : Env) (s : Server) (c : Connection) :
    Balanced s c [] [] (if c.state < csDisconnecting then s.cnnDisconnect env c else (s, c)).1
      (if c.state < csDisconnecting then s.cnnDisconnect env c else (s, c)).2 := by
  obtain ⟨n, os, state, h, -⟩ := disconnect_eq env s c
  rw [h]
  exact ⟨rfl, rfl, rfl, rfl, rfl, .refl _, .refl _⟩

/-- The packets are taken from the front of the queue. -/
theorem deliver_packets (ips : List InPac) (rs : List Request) :
    (deliver ips rs).released ++ (deliver ips rs).packets = ips := by
  fun_induction deliver ips rs with
  | case1 ips => rfl
  | case2 rs => rfl
  | case3 ip ips r rs toCopy hlt d ih => exact ih
  | case4 ip ips r rs toCopy hle d ih => exact congrArg (ip :: ·) ih

/-- What is left of them was behind. -/
theorem deliver_suffix (ips : List InPac) (rs : List Request) : (deliver ips rs).packets <:+ ips :=
  ⟨_, deliver_packets ips rs⟩

/-- The requests are taken from the front, too, and nothing of them changes but `r_Actual`, `r_State` and the buffer. -/
theorem deliver_map {β : Type} (f : Request → β)
    (hf : ∀ r actual state data, f { r with actual := actual, state := state, data := data } = f r) (ips : List InPac)
    (rs : List Request) : (deliver ips rs).replied.map f ++ (deliver ips rs).requests.map f = rs.map f := by
  fun_induction deliver ips rs with
  | case1 ips => rfl
  | case2 rs => rfl
  | case3 ip ips r rs toCopy hlt d ih =>
    show f _ :: (d.replied.map f ++ d.requests.map f) = f r :: rs.map f
    rw [ih, hf]
  | case4 ip ips r rs toCopy hle d ih =>
    show f _ :: (d.replied.map f ++ d.requests.map f) = f r :: rs.map f
    rw [ih, hf]

/-- A request that is replied to is one of them. -/
theorem deliver_mem {β : Type} (f : Request → β)
    (hf : ∀ r actual state data, f { r with actual := actual, state := state, data := data } = f r) {ips : List InPac}
    {rs : List Request} {r : Request} (hr : r ∈ (deliver ips rs).replied) : ∃ q ∈ rs, f q = f r := by
  have hm : f r ∈ rs.map f := by
    rw [← deliver_map f hf ips rs]
    exact List.mem_append_left _ (List.mem_map_of_mem hr)
  exact List.mem_map.1 hm

theorem deliver_requests (ips : List InPac) (rs : List Request) : (deliver ips rs).requests <:+ rs := by
  fun_induction deliver ips rs with
  | case1 ips => exact List.suffix_rfl
  | case2 rs => exact List.suffix_rfl
  | case3 ip ips r rs toCopy hlt d ih => exact ih.trans (List.suffix_cons r rs)
  | case4 ip ips r rs toCopy hle d ih => exact ih.trans (List.suffix_cons r rs)

/-- **Delivering loses nothing**: every request is replied to or stays, every packet is released or stays. -/
theorem balanced_pushToClient (s : Server) (c : Connection) :
    Balanced s c [] [] (s.pushToClient c).1 (s.pushToClient c).2 := by
  unfold pushToClient
  split
  · exact .refl _ _
  · refine ⟨rfl, rfl, rfl, rfl, rfl, ?_, ?_⟩
    · simp only [List.map_append, List.append_assoc]
      rw [deliver_map Request.num fun _ _ _ _ => rfl]
      exact .refl _
    · simp only [List.map_append, List.append_assoc]
      rw [← List.map_append, deliver_packets]
      exact .refl _

theorem takeRequest_perm {type : UInt16} : ∀ {rs : List Request} {r : Request} {qs : List Request},
    takeRequest type rs = some (r, qs) → rs.Perm (r :: qs)
  | [], _, _, h => by cases h
  | r :: rs, r', qs, h => by
    unfold takeRequest at h
    split at h
    · cases h
      exact .refl _
    · obtain ⟨⟨r₁, qs₁⟩, h₁, h₂⟩ := Option.map_eq_some_iff.1 h
      cases h₂
      exact ((takeRequest_perm h₁).cons r).trans (.swap _ _ _)

theorem balanced_replyRequest (s : Server) (c : Connection) (type : UInt16) (state : RequestState) :
    Balanced s c [] [] (s.replyRequest c type state).1 (s.replyRequest c type state).2 := by
  unfold replyRequest
  cases h : takeRequest type c.reqQueue with
  | none => exact .refl _ _
  | some q =>
    refine ⟨rfl, rfl, rfl, rfl, rfl, ?_, .refl _⟩
    have hp := (takeRequest_perm h).map Request.num
    simp only [reply, List.map_append, List.map_cons, List.map_nil, List.append_assoc]
    exact (hp.symm).append_left _

/-- A tick takes at most one request off the queue, and nothing of the others changes but their ticks. -/
theorem tickRequests_map {β : Type} (f : Request → β)
    (hf : ∀ r state ticks, f { r with state := state, timeoutTicks := ticks } = f r) (rs : List Request) :
    ((tickRequests rs).2.map f).Sublist (rs.map f) ∧
      ((tickRequests rs).1.toList.map f ++ (tickRequests rs).2.map f).Perm (rs.map f) := by
  induction rs with
  | nil => exact ⟨.refl _, .refl _⟩
  | cons r rs ih =>
    obtain ⟨h₁, h₂⟩ := ih
    have hkey : f (if 1 < r.timeoutTicks then { r with timeoutTicks := r.timeoutTicks - 1 } else r) = f r := by
      split
      · exact hf r r.state _
      · rfl
    unfold tickRequests
    split
    · refine ⟨List.sublist_cons_self _ _, ?_⟩
      rw [Option.toList_some, List.map_singleton, hf r .timeout r.timeoutTicks]
      exact .refl _
    · rw [List.map_cons, List.map_cons, hkey]
      exact ⟨h₁.cons_cons _, List.perm_middle.trans (h₂.cons (f r))⟩

/-! ## Writing back -/

theorem Distinct.put (d : s.Distinct) (c : Connection) : (s.put c).Distinct := by
  constructor
  · show ((Keyed.put Connection.num s.connections c).map Connection.num).Nodup
    rw [Keyed.map_key_put]
    exact d.nodup
  · intro b hb
    have hm : b.num ∈ (Keyed.put Connection.num s.connections c).map Connection.num := List.mem_map_of_mem hb
    rw [Keyed.map_key_put] at hm
    obtain ⟨b', hb', he⟩ := List.mem_map.1 hm
    rw [← he]
    exact d.lt b' hb'

theorem Distinct.congr (d : s.Distinct) (h : s'.connections = s.connections) (hc : s.creations ≤ s'.creations) :
    s'.Distinct := by
  constructor
  · rw [h]
    exact d.nodup
  · intro b hb
    rw [h] at hb
    exact Nat.lt_of_lt_of_le (d.lt b hb) hc

theorem Distinct.balanced {rs ps : List Nat} (d : s.Distinct) (h : Balanced s c rs ps s' c') : (s'.put c').Distinct :=
  (d.congr h.connections (Nat.le_of_eq h.creations.symm)).put c'

/-- The connection that is looked at is one of the list. -/
theorem mem_of_findConnection {id : UInt16} (h : s.findConnection id = some c) : c ∈ s.connections :=
  List.mem_of_find?_eq_some h

/-- What came in (`rs`, `ps`) was replied to or released or waits, but for what is lost (`rs'`, `ps'`). -/
structure Accounted (s : Server) (rs ps : List Nat) (s' : Server) (rs' ps' : List Nat) : Prop where
  requests : (s'.requests ++ rs').Perm (rs ++ s.requests)
  packets : (s'.packets ++ ps').Perm (ps ++ s.packets)
  creations : s.creations ≤ s'.creations
  taken : s'.taken = s.taken
  dequeued : s'.dequeued = s.dequeued
  distinct : s'.Distinct

theorem Accounted.refl (d : s.Distinct) : Accounted s [] [] s [] [] := by
  refine ⟨?_, ?_, Nat.le_refl _, rfl, rfl, d⟩
  · rw [List.append_nil, List.nil_append]
  · rw [List.append_nil, List.nil_append]

theorem Accounted.trans {rs ps rs' ps' : List Nat} (h : Accounted s rs ps s' [] []) (h' : Accounted s' [] [] t rs' ps') :
    Accounted s rs ps t rs' ps' := by
  refine ⟨h'.requests.trans ?_, h'.packets.trans ?_, h.creations.trans h'.creations, h'.taken.trans h.taken,
    h'.dequeued.trans h.dequeued, h'.distinct⟩
  · simpa only [List.append_nil, List.nil_append] using h.requests
  · simpa only [List.append_nil, List.nil_append] using h.packets

/-- What came in with nothing done can be done first. -/
theorem Accounted.after {rs ps rs' ps' : List Nat} (h : Accounted s [] [] s' [] []) (h' : Accounted s' rs ps t rs' ps') :
    Accounted s rs ps t rs' ps' := by
  refine ⟨h'.requests.trans (List.Perm.append_left rs ?_), h'.packets.trans (List.Perm.append_left ps ?_),
    h.creations.trans h'.creations, h'.taken.trans h.taken, h'.dequeued.trans h.dequeued, h'.distinct⟩
  · simpa only [List.append_nil, List.nil_append] using h.requests
  · simpa only [List.append_nil, List.nil_append] using h.packets

/-- **Work on a connection, written back.** -/
theorem accounted_put {rs ps : List Nat} (d : s.Distinct) (hc : c ∈ s.connections) (h : Balanced s c rs ps s' c') :
    Accounted s rs ps (s'.put c') [] [] := by
  refine ⟨?_, ?_, Nat.le_of_eq h.creations.symm, h.taken, h.dequeued, d.balanced h⟩
  · obtain ⟨rest, h₁, h₂, -⟩ := Keyed.perm_flatMap (fun c : Connection => c.reqQueue.map Request.num) d.nodup hc
    have h₂ := h₂ c' h.num
    unfold requests put
    dsimp only
    rw [h.connections, List.append_nil]
    refine (h₂.append_left _).trans (.trans ?_ ((h₁.append_left _).append_left rs).symm)
    rw [← List.append_assoc, ← List.append_assoc, ← List.append_assoc, List.append_assoc rs]
    exact h.requests.append_right rest
  · obtain ⟨rest, h₁, h₂, -⟩ := Keyed.perm_flatMap (fun c : Connection => c.packetQueue.map InPac.num) d.nodup hc
    have h₂ := h₂ c' h.num
    unfold packets put
    dsimp only
    rw [h.connections, List.append_nil]
    refine (h₂.append_left _).trans (.trans ?_ ((h₁.append_left _).append_left ps).symm)
    rw [← List.append_assoc, ← List.append_assoc, ← List.append_assoc, List.append_assoc ps]
    exact h.packets.append_right rest

/-- Nothing that has to do with connections changes. -/
theorem accounted_of_eq (d : s.Distinct) (hc : s'.connections = s.connections) (hn : s'.creations = s.creations)
    (hr : s'.replied = s.replied) (hp : s'.released = s.released) (ht : s'.taken = s.taken)
    (hd : s'.dequeued = s.dequeued) : Accounted s [] [] s' [] [] := by
  refine ⟨?_, ?_, Nat.le_of_eq hn.symm, ht, hd, d.congr hc (Nat.le_of_eq hn.symm)⟩
  · rw [requests, hr, hc, List.append_nil, List.nil_append]
    exact .refl _
  · rw [packets, hp, hc, List.append_nil, List.nil_append]
    exact .refl _

theorem accounted_release (d : s.Distinct) (ip : InPac) : Accounted s [] [ip.num] (s.release ip) [] [] := by
  refine ⟨?_, ?_, Nat.le_refl _, rfl, rfl, d.congr rfl (Nat.le_refl _)⟩
  · rw [List.append_nil, List.nil_append]
    exact .refl _
  · simp only [packets, release, List.map_append, List.map_cons, List.map_nil, List.append_nil, List.append_assoc]
    exact List.perm_middle

theorem accounted_reply (d : s.Distinct) (req : Request) : Accounted s [req.num] [] (s.reply req) [] [] := by
  refine ⟨?_, ?_, Nat.le_refl _, rfl, rfl, d.congr rfl (Nat.le_refl _)⟩
  · simp only [requests, reply, List.map_append, List.map_cons, List.map_nil, List.append_nil, List.append_assoc]
    exact List.perm_middle
  · rw [List.append_nil, List.nil_append]
    exact .refl _

/-- A packet that is put nowhere. -/
theorem Accounted.lose (h : Accounted s [] [] s' [] []) (n : Nat) : Accounted s [] [n] s' [] [n] := by
  refine ⟨h.requests, ?_, h.creations, h.taken, h.dequeued, h.distinct⟩
  have hp := h.packets
  rw [List.append_nil, List.nil_append] at hp
  exact (hp.append_right [n]).trans List.perm_append_comm

/-- **The connection goes, with its requests.** -/
theorem accounted_destroy (d : s.Distinct) (hc : c ∈ s.connections) (hnum : c'.num = c.num)
    (hq : c'.packetQueue = c.packetQueue) (env : Env) :
    Accounted s [] [] (s.destroyConnection env c') (c.reqQueue.map Request.num) [] := by
  obtain ⟨n, os, state, h, -⟩ := disconnect_eq env s c'
  have hd : s.destroyConnection env c' =
      { s with allocs := n, out := s.out ++ os, released := s.released ++ c'.packetQueue,
               connections := Keyed.remove Connection.num s.connections c.num } := by
    unfold destroyConnection
    dsimp only
    rw [h, hnum]
  rw [hd]
  refine ⟨?_, ?_, Nat.le_refl _, rfl, rfl, ?_, ?_⟩
  · obtain ⟨rest, h₁, -, h₃⟩ := Keyed.perm_flatMap (fun c : Connection => c.reqQueue.map Request.num) d.nodup hc
    simp only [requests, List.nil_append, List.append_assoc]
    apply List.Perm.append_left
    exact (h₃.append_right _).trans (List.perm_append_comm.trans h₁.symm)
  · obtain ⟨rest, h₁, -, h₃⟩ := Keyed.perm_flatMap (fun c : Connection => c.packetQueue.map InPac.num) d.nodup hc
    simp only [packets, List.nil_append, List.append_nil, List.map_append, List.append_assoc]
    apply List.Perm.append_left
    rw [hq]
    exact (h₃.append_left _).trans h₁.symm
  · exact (Keyed.map_key_remove Connection.num s.connections c.num).nodup d.nodup
  · intro b hb
    exact d.lt b (Keyed.mem_remove.1 hb).1

theorem Quiet.accounted (h : Quiet s s') (d : s.Distinct) : Accounted s [] [] s' [] [] := by
  refine ⟨?_, ?_, Nat.le_of_eq h.creations.symm, h.taken, h.dequeued, d.congr h.connections (Nat.le_of_eq h.creations.symm)⟩
  · rw [requests, h.replied, h.connections, List.append_nil, List.nil_append]
    exact .refl _
  · rw [packets, h.released, h.connections, List.append_nil, List.nil_append]
    exact .refl _

/-! ## Packets -/

/-- The requests that go with a packet. -/
def lostRequests (c : Connection) (ip : InPac) : List Nat :=
  if ip.pac.type = ptDisconnected then c.reqQueue.map Request.num else []

/-- The packet, if it is put nowhere. -/
def lostPackets (ip : InPac) : List Nat := if ip.pac.type = ptNoHandler then [ip.num] else []

/-- **What a packet does to a connection.** -/
theorem accounted_handleConnectionPacket (env : Env) (d : s.Distinct) (hc : c ∈ s.connections) (ip : InPac) :
    Accounted s [] [ip.num] (s.handleConnectionPacket env c ip) (lostRequests c ip) (lostPackets ip) := by
  unfold handleConnectionPacket lostRequests lostPackets
  by_cases h₁ : ip.pac.type = ptConnected
  · rw [if_pos h₁, if_neg (by rw [h₁]; decide), if_neg (by rw [h₁]; decide)]
    apply (accounted_release d ip).trans
    apply accounted_put (accounted_release d ip).distinct hc
    exact (balanced_state (s.release ip) c csConnected).trans (balanced_replyRequest _ _ rtOpen .ok)
  · rw [if_neg h₁]
    by_cases h₂ : ip.pac.type = ptDisconnected
    · rw [if_pos h₂, if_pos h₂, if_neg (by rw [h₂]; decide)]
      apply (accounted_release d ip).trans
      have hnum : ({ c with state := csDisconnected } : Connection).num = c.num := rfl
      exact accounted_destroy (accounted_release d ip).distinct hc hnum rfl env
    · rw [if_neg h₂, if_neg h₂]
      by_cases h₃ : ip.pac.type = ptNoHandler
      · rw [if_pos h₃, if_pos h₃]
        apply Accounted.lose
        apply accounted_put d hc
        exact (balanced_state s c csNoHandler).trans (balanced_replyRequest _ _ rtOpen .noHandler)
      · rw [if_neg h₃, if_neg h₃]
        by_cases h₄ : csDisconnecting ≤ c.state
        · rw [if_pos h₄]
          exact accounted_release d ip
        · rw [if_neg h₄]
          apply accounted_put d hc
          exact (balanced_queue_packet s c ip).trans (balanced_pushToClient _ _)

/-- What is lost with a packet: only what its connection loses. -/
def lostWith (s : Server) (ip : InPac) : List Nat × List Nat :=
  match s.target ip.pac.connId with
  | none => ([], [])
  | some c => (lostRequests c ip, lostPackets ip)

/-- **A packet is accounted for**, but for what its connection loses. -/
theorem accounted_handlePacket (env : Env) (d : s.Distinct) (ip : InPac) :
    Accounted s [] [ip.num] (s.handlePacket env ip) (s.lostWith ip).1 (s.lostWith ip).2 := by
  have hh : Accounted s [] [] (s.hear ip) [] [] :=
    accounted_of_eq d rfl rfl rfl rfl rfl rfl
  have hn := hh.trans ((quiet_noteId env (s.hear ip) ip).accounted hh.distinct)
  rw [handlePacket_eq, lostWith]
  apply hn.after
  have ht : ((s.hear ip).noteId env ip).target ip.pac.connId = s.target ip.pac.connId :=
    target_congr (quiet_noteId env (s.hear ip) ip).connections _
  rw [← ht]
  generalize ((s.hear ip).noteId env ip) = t at hn ⊢
  unfold dispatch
  by_cases h₀ : ip.pac.connId = defaultConnection
  · obtain ⟨t', hq, he⟩ := handleControlPacket_eq env t ip
    rw [if_pos h₀, target, if_pos h₀, he]
    exact (hq.accounted hn.distinct).after (accounted_release (hq.accounted hn.distinct).distinct ip)
  · rw [if_neg h₀, target, if_neg h₀]
    cases hf : t.findConnection ip.pac.connId with
    | none =>
      have hq := quiet_send env t sizeofPacket ⟨none, ip.pac.connId, ptNoConnection, []⟩ rfl
      exact (hq.accounted hn.distinct).after (accounted_release (hq.accounted hn.distinct).distinct ip)
    | some c => exact accounted_handleConnectionPacket env hn.distinct (mem_of_findConnection hf) ip

/-! ## Requests -/

/-- **A request to a connection is accounted for.** -/
theorem accounted_handleClientRequest (env : Env) (d : s.Distinct) (hc : c ∈ s.connections) (req : Request) :
    Accounted s [req.num] [] (s.handleClientRequest env c req) [] [] := by
  obtain ⟨r, hr, ⟨-, h⟩ | ⟨-, h⟩ | ⟨-, h⟩ | ⟨-, -, -, -, h⟩ | h⟩ := handleClientRequest_cases env s c req
  · rw [h, ← hr]
    apply accounted_put d hc
    exact (balanced_queue_request s c r req.handlerId).trans (balanced_cnnConnect env _ _)
  · rw [h, ← hr]
    have hp := accounted_put d hc (balanced_disconnect env s c)
    exact hp.after (accounted_reply hp.distinct r)
  · rw [h, ← hr]
    apply accounted_put d hc
    exact (balanced_queue_request s c r c.handlerId).trans (balanced_pushToClient _ _)
  · rw [h, ← hr]
    obtain ⟨os, hs, -⟩ := send_eq env s ((sizeofPacket + req.length.toNat) % 65536)
      ⟨some c.num, c.id, ptData, req.data.take req.length.toNat⟩
    have ha : Accounted s [] [] { s with allocs := s.allocs + 1, out := s.out ++ os } [] [] :=
      accounted_of_eq d rfl rfl rfl rfl rfl rfl
    rw [hs]
    exact ha.after (accounted_reply ha.distinct r)
  · rw [h, ← hr]
    exact accounted_reply d r

/-- A new connection holds nothing. -/
theorem accounted_withNew (d : s.Distinct) (state : ConnectionState) : Accounted s [] [] (s.withNew state) [] [] := by
  refine ⟨?_, ?_, Nat.le_succ _, rfl, rfl, ?_, ?_⟩
  · simp only [requests, withNew, newConnection, List.flatMap_append, List.flatMap_singleton, List.map_nil,
      List.append_nil, List.nil_append]
    exact .refl _
  · simp only [packets, withNew, newConnection, List.flatMap_append, List.flatMap_singleton, List.map_nil,
      List.append_nil, List.nil_append]
    exact .refl _
  · simp only [withNew, newConnection, List.map_append, List.map_cons, List.map_nil]
    rw [List.nodup_append]
    refine ⟨d.nodup, List.nodup_singleton _, fun n hn m hm => ?_⟩
    obtain ⟨b, hb, rfl⟩ := List.mem_map.1 hn
    rw [List.mem_singleton.1 hm]
    exact Nat.ne_of_lt (d.lt b hb)
  · intro b hb
    rcases List.mem_append.1 hb with hb | hb
    · exact Nat.lt_succ_of_lt (d.lt b hb)
    · rw [List.mem_singleton.1 hb]
      exact Nat.lt_succ_self _

theorem mem_of_target {id : UInt16} (h : s.target id = some c) : c ∈ s.connections := by
  unfold target at h
  split at h
  · cases h
  · exact mem_of_findConnection h

/-- **A request is accounted for.** -/
theorem accounted_receiveRequest (d : s.Distinct) (h : s.receiveRequest env req = some s') :
    Accounted s [req.num] [] s' [] [] := by
  obtain ⟨r, hr, ⟨t, ht, rfl⟩ | ⟨c, hc, rfl, -⟩ | ⟨-, -, state, -, rfl, -⟩⟩ := receiveRequest_cases h
  · rw [← hr]
    have hq := quiet_of_quit ht
    exact (hq.accounted d).after (accounted_reply (hq.accounted d).distinct r)
  · rw [← hr]
    exact accounted_handleClientRequest env d (mem_of_target hc) r
  · rw [← hr]
    have hn := accounted_withNew d state
    exact hn.after (accounted_handleClientRequest env hn.distinct (List.mem_append_right _ (List.mem_singleton.2 rfl)) r)

/-- What a tick does to the requests of a connection. -/
theorem accounted_cnnCheckRequestTimeouts (d : s.Distinct) (hc : c ∈ s.connections) :
    Accounted s [] [] (s.cnnCheckRequestTimeouts c) [] [] := by
  unfold cnnCheckRequestTimeouts
  apply accounted_put d hc
  refine ⟨rfl, rfl, rfl, rfl, rfl, ?_, .refl _⟩
  simp only [List.map_append, List.append_assoc, List.nil_append]
  exact (tickRequests_map Request.num (fun _ _ _ => rfl) c.reqQueue).2.append_left _

/-- **A tick keeps every request.** -/
theorem accounted_checkRequestTimeouts (d : s.Distinct) : Accounted s [] [] s.checkRequestTimeouts [] [] := by
  unfold checkRequestTimeouts
  apply Keyed.foldl_inv connections (fun t => Accounted s [] [] t [] []) _ d.nodup (fun _ h => h) (.refl d)
  intro t c ht hc
  refine ⟨ht.trans (accounted_cnnCheckRequestTimeouts ht.distinct hc), fun b hb hne => ?_⟩
  exact Keyed.mem_put_of_ne hb hne

theorem accounted_handleTimer (env : Env) (d : s.Distinct) : Accounted s [] [] (s.handleTimer env) [] [] := by
  unfold handleTimer
  dsimp only
  split
  · exact accounted_of_eq d rfl rfl rfl rfl rfl rfl
  · have h₁ := ((quiet_checkPing s).trans (quiet_nextPing env _)).accounted d
    have h₂ := h₁.trans (accounted_checkRequestTimeouts h₁.distinct)
    exact h₂.trans (accounted_of_eq h₂.distinct rfl rfl rfl rfl rfl rfl)
  · exact accounted_of_eq d rfl rfl rfl rfl rfl rfl
  · exact accounted_of_eq d rfl rfl rfl rfl rfl rfl

/-! ## Steps -/

/-- What comes in with an event: the requests and the packets that get a new number. -/
def arriving (s : Server) : Event → List Nat × List Nat
  | .request _ => ([s.taken], [])
  | .packet .. => ([], [s.dequeued])
  | _ => ([], [])

/-- What is lost with an event. -/
def lostAt (s : Server) : Event → List Nat × List Nat
  | .packet seq pac => s.lostWith ⟨s.dequeued, seq, pac⟩
  | _ => ([], [])

/-- The books after an event. -/
structure Booked (s : Server) (e : Event) (s' : Server) : Prop where
  requests : (s'.requests ++ (s.lostAt e).1).Perm ((s.arriving e).1 ++ s.requests)
  packets : (s'.packets ++ (s.lostAt e).2).Perm ((s.arriving e).2 ++ s.packets)
  taken : s'.taken = s.taken + (s.arriving e).1.length
  dequeued : s'.dequeued = s.dequeued + (s.arriving e).2.length
  distinct : s'.Distinct

/-- Where nothing comes in and nothing is lost. -/
theorem Accounted.booked {e : Event} (h : Accounted s [] [] s' [] []) (ha : s.arriving e = ([], []))
    (hl : s.lostAt e = ([], [])) : Booked s e s' := by
  refine ⟨?_, ?_, ?_, ?_, h.distinct⟩
  · rw [ha, hl]
    exact h.requests
  · rw [ha, hl]
    exact h.packets
  · rw [ha]
    exact h.taken
  · rw [ha]
    exact h.dequeued

/-- **What an event does to the books.** -/
theorem booked_step (d : s.Distinct) {e : Event} (h : step env s e = some s') : Booked s e s' := by
  cases e with
  | run ok =>
    cases h
    exact ((quiet_runStep env s ok).accounted d).booked rfl rfl
  | wake brk =>
    cases h
    refine (Quiet.accounted ?_ d).booked rfl rfl
    split
    · exact .of_eq rfl rfl rfl rfl rfl rfl rfl rfl rfl
    · exact .of_eq rfl rfl rfl rfl rfl rfl rfl rfl rfl
  | timer fired =>
    cases h
    refine Accounted.booked ?_ rfl rfl
    have ht : Accounted s [] [] (if fired then s.handleTimer env else s) [] [] := by
      split
      · exact accounted_handleTimer env d
      · exact .refl d
    exact ht.trans (accounted_of_eq ht.distinct rfl rfl rfl rfl rfl rfl)
  | request req =>
    have d' : ({ s with taken := s.taken + 1 } : Server).Distinct := d.congr rfl (Nat.le_refl _)
    have ha := accounted_receiveRequest d' h
    exact ⟨ha.requests, ha.packets, ha.taken, ha.dequeued, ha.distinct⟩
  | requestsDone =>
    cases h
    exact Accounted.booked (accounted_of_eq d rfl rfl rfl rfl rfl rfl) rfl rfl
  | packet seq pac =>
    cases h
    have d' : ({ s with dequeued := s.dequeued + 1 } : Server).Distinct := d.congr rfl (Nat.le_refl _)
    have ha := accounted_handlePacket env d' ⟨s.dequeued, seq, pac⟩
    exact ⟨ha.requests, ha.packets, ha.taken, ha.dequeued, ha.distinct⟩
  | packetsDone =>
    cases h
    exact Accounted.booked (accounted_of_eq d rfl rfl rfl rfl rfl rfl) rfl rfl

end AmiPiBorg.Server
