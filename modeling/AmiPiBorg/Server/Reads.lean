import AmiPiBorg.Server.Moves
import AmiPiBorg.Reader.Stream

/-!
# Reads are served in order

`Serves ips rs rest` says what the replies `rs` to reads make of the packets `ips`: a read that is completed has taken
the first packet whole, one that finds its buffer too small, or gives up, leaves the packets alone, and `rest` is what is
left. The loop of `APB_PushToClient` serves its requests (`deliver_serves`), in their order (`deliver_keys`), until there
is no packet or no request left (`deliver_exhausts`), and the same is true of everything that happens at a connection
while it is read from (`reads_in_order`).
-/

set_option autoImplicit false

namespace AmiPiBorg.Server

open ProgLib

variable {env : Env} {s s' t : Server} {c c' c'' : Connection} {ip : InPac} {r req : Request}
  {ips ips' mid rest : List InPac} {rs rs' : List Request}

/-- What becomes of packets when reads are replied to. -/
inductive Serves : List InPac → List Request → List InPac → Prop
  | done (ips : List InPac) : Serves ips [] ips
  /-- The read gets the first packet, which fits its buffer. -/
  | ok {ip : InPac} {r : Request} {ips rest : List InPac} {rs : List Request} : r.state = .ok →
      r.data = ip.pac.data → r.actual.toNat = ip.pac.data.length → ip.pac.data.length ≤ r.length.toNat →
      Serves ips rs rest → Serves (ip :: ips) (r :: rs) rest
  /-- The first packet does not fit the buffer, and stays. -/
  | tooSmall {ip : InPac} {r : Request} {ips rest : List InPac} {rs : List Request} : r.state = .bufferTooSmall →
      r.actual.toNat = ip.pac.data.length → r.length.toNat < ip.pac.data.length → Serves (ip :: ips) rs rest →
      Serves (ip :: ips) (r :: rs) rest
  | timeout {r : Request} {ips rest : List InPac} {rs : List Request} : r.state = .timeout → Serves ips rs rest →
      Serves ips (r :: rs) rest

theorem Serves.trans (h : Serves ips rs mid) (h' : Serves mid rs' rest) : Serves ips (rs ++ rs') rest := by
  induction h with
  | done ips => exact h'
  | ok h₁ h₂ h₃ h₄ _ ih => exact .ok h₁ h₂ h₃ h₄ (ih h')
  | tooSmall h₁ h₂ h₃ _ ih => exact .tooSmall h₁ h₂ h₃ (ih h')
  | timeout h₁ _ ih => exact .timeout h₁ (ih h')

/-- Packets that come later stay. -/
theorem Serves.append (h : Serves ips rs rest) (more : List InPac) : Serves (ips ++ more) rs (rest ++ more) := by
  induction h with
  | done ips => exact .done _
  | ok h₁ h₂ h₃ h₄ _ ih => exact .ok h₁ h₂ h₃ h₄ ih
  | tooSmall h₁ h₂ h₃ _ ih => exact .tooSmall h₁ h₂ h₃ ih
  | timeout h₁ _ ih => exact .timeout h₁ ih

/-- Requests that give up leave the packets alone. -/
theorem Serves.timeouts (ips : List InPac) (h : ∀ r ∈ rs, r.state = .timeout) : Serves ips rs ips := by
  induction rs with
  | nil => exact .done ips
  | cons r rs ih => exact .timeout (h r List.mem_cons_self) (ih fun q hq => h q (List.mem_cons_of_mem _ hq))

/-- **The completed reads carry the first packets**, one each, in the order in which they came. -/
theorem Serves.payloads (h : Serves ips rs rest) : ∃ taken, ips = taken ++ rest ∧
    (rs.filter fun r => r.state = .ok).map Request.data = taken.map fun ip => ip.pac.data := by
  induction h with
  | done ips => exact ⟨[], rfl, rfl⟩
  | @ok ip r ips rest rs h₁ h₂ h₃ h₄ _ ih =>
    obtain ⟨taken, rfl, ht⟩ := ih
    exact ⟨ip :: taken, rfl, by simp [h₁, h₂, ht]⟩
  | tooSmall h₁ _ _ _ ih =>
    obtain ⟨taken, hi, ht⟩ := ih
    exact ⟨taken, hi, by simp [h₁, ht]⟩
  | timeout h₁ _ ih =>
    obtain ⟨taken, hi, ht⟩ := ih
    exact ⟨taken, hi, by simp [h₁, ht]⟩

/-! ## The loops -/

/-- A request as its client made it: its number, its type and the room in its buffer. -/
def asked (r : Request) : Nat × UInt16 × UInt16 := (r.num, r.type, r.length)

/-- Each of the requests is one of `qs`, with what was in its buffer. -/
def AsMade (qs rs : List Request) : Prop := ∀ r ∈ rs, ∃ q ∈ qs, asked q = asked r ∧ q.data = r.data

theorem AsMade.refl (rs : List Request) : AsMade rs rs := fun r hr => ⟨r, hr, rfl, rfl⟩

theorem AsMade.trans {qs : List Request} (h : AsMade qs rs) (h' : AsMade rs rs') : AsMade qs rs' := by
  intro r hr
  obtain ⟨q, hq, ha, hd⟩ := h' r hr
  obtain ⟨p, hp, ha', hd'⟩ := h q hq
  exact ⟨p, hp, ha'.trans ha, hd'.trans hd⟩

theorem AsMade.mono {qs qs' : List Request} (h : AsMade qs rs) (hs : qs ⊆ qs') : AsMade qs' rs := fun r hr =>
  (h r hr).imp fun _ hq => ⟨hs hq.1, hq.2⟩

theorem AsMade.append {qs : List Request} (h : AsMade qs rs) (h' : AsMade qs rs') : AsMade qs (rs ++ rs') := fun r hr =>
  (List.mem_append.1 hr).elim (h r) (h' r)

/-- The packets are short enough for `ip_Data1Length + ip_Data2Length` to be a `UWORD`. -/
def Short (ips : List InPac) : Prop := ∀ ip ∈ ips, ip.pac.data.length < 65536

theorem deliver_serves (h : Short ips) : Serves ips (deliver ips rs).replied (deliver ips rs).packets := by
  fun_induction deliver ips rs with
  | case1 ips => exact .done ips
  | case2 rs => exact .done []
  | case3 ip ips r rs toCopy hlt d ih =>
    have hlen : toCopy.toNat = ip.pac.data.length := UInt16.toNat_ofNat_of_lt' (h ip List.mem_cons_self)
    rw [UInt16.lt_iff_toNat_lt, hlen] at hlt
    exact .tooSmall rfl hlen hlt (ih h)
  | case4 ip ips r rs toCopy hle d ih =>
    have hlen : toCopy.toNat = ip.pac.data.length := UInt16.toNat_ofNat_of_lt' (h ip List.mem_cons_self)
    rw [UInt16.lt_iff_toNat_lt, hlen, Nat.not_lt] at hle
    exact .ok rfl rfl hlen hle (ih fun q hq => h q (List.mem_cons_of_mem _ hq))

/-- **The requests are served one after the other.** -/
theorem deliver_keys (ips : List InPac) (rs : List Request) :
    (deliver ips rs).replied.map asked ++ (deliver ips rs).requests.map asked = rs.map asked :=
  deliver_map asked (fun _ _ _ _ => rfl) ips rs

/-- None of them gives up. -/
theorem deliver_state (ips : List InPac) (rs : List Request) : ∀ r ∈ (deliver ips rs).replied, r.state ≠ .timeout := by
  fun_induction deliver ips rs with
  | case1 ips => exact fun r hr => absurd hr List.not_mem_nil
  | case2 rs => exact fun r hr => absurd hr List.not_mem_nil
  | case3 ip ips r rs toCopy hlt d ih => exact List.forall_mem_cons.2 ⟨by simp, ih⟩
  | case4 ip ips r rs toCopy hle d ih => exact List.forall_mem_cons.2 ⟨by simp, ih⟩

/-- The loop goes on until one of the queues is empty. -/
theorem deliver_exhausts (ips : List InPac) (rs : List Request) :
    (deliver ips rs).packets = [] ∨ (deliver ips rs).requests = [] := by
  fun_induction deliver ips rs with
  | case1 ips => exact .inr rfl
  | case2 rs => exact .inl rfl
  | case3 ip ips r rs toCopy hlt d ih => exact ih
  | case4 ip ips r rs toCopy hle d ih => exact ih

/-- Nothing is written but to the buffers of the reads that are completed. -/
theorem deliver_asMade (ips : List InPac) (rs : List Request) :
    AsMade rs ((deliver ips rs).replied.filter (fun r => r.state ≠ .ok) ++ (deliver ips rs).requests) := by
  fun_induction deliver ips rs with
  | case1 ips => exact .refl []
  | case2 rs => exact .refl rs
  | case3 ip ips q rs toCopy hlt d ih =>
    rw [List.filter_cons_of_pos (by simp), List.cons_append]
    exact List.forall_mem_cons.2 ⟨⟨q, List.mem_cons_self, rfl, rfl⟩, ih.mono (List.subset_cons_self q rs)⟩
  | case4 ip ips q rs toCopy hle d ih =>
    rw [List.filter_cons_of_neg (by simp)]
    exact ih.mono (List.subset_cons_self q rs)

/-- A request that gives up is one whose time is up. -/
theorem tickRequests_expired {rs : List Request} (hr : r ∈ (tickRequests rs).1.toList) :
    ∃ q ∈ rs, q.timeoutTicks = 1 ∧ r = { q with state := .timeout } := by
  induction rs with
  | nil => cases hr
  | cons q rs ih =>
    unfold tickRequests at hr
    split at hr
    · next ht => exact ⟨q, List.mem_cons_self, ht, by simpa using hr⟩
    · obtain ⟨q', hq, ht, he⟩ := ih hr
      exact ⟨q', List.mem_cons_of_mem _ hq, ht, he⟩

theorem tickRequests_state {rs : List Request} (hr : r ∈ (tickRequests rs).1.toList) : r.state = .timeout := by
  obtain ⟨q, -, -, rfl⟩ := tickRequests_expired hr
  rfl

/-- A request that goes on waiting has at most one tick less. -/
theorem tickRequests_left {rs : List Request} {r : Request} (hr : r ∈ (tickRequests rs).2) :
    ∃ q ∈ rs, ∃ n, r = { q with timeoutTicks := n } ∧ q.timeoutTicks.toNat ≤ n.toNat + 1 ∧
      (q.timeoutTicks = 0 → n = 0) := by
  induction rs with
  | nil => cases hr
  | cons q rs ih =>
    unfold tickRequests at hr
    split at hr
    · exact ⟨r, List.mem_cons_of_mem _ hr, r.timeoutTicks, rfl, Nat.le_succ _, id⟩
    · rcases List.mem_cons.1 hr with rfl | hr
      · split
        · next hlt =>
          have hle : (1 : UInt16) ≤ q.timeoutTicks := UInt16.le_of_lt hlt
          refine ⟨q, List.mem_cons_self, _, rfl, ?_, fun h0 => ?_⟩
          · rw [UInt16.toNat_sub_of_le _ _ hle]
            simp only [UInt16.toNat_one]
            omega
          · rw [h0] at hlt
            exact absurd hlt (by decide)
        · exact ⟨q, List.mem_cons_self, q.timeoutTicks, rfl, Nat.le_succ _, id⟩
      · obtain ⟨q', hq, n, h⟩ := ih hr
        exact ⟨q', List.mem_cons_of_mem _ hq, n, h⟩

/-! ## What happens at a connection -/

/-- From `c` to `c'`, the packets `ips` and the reads `reqs` have come in, and the reads `replies` were replied to: they
serve the packets; every read was replied to or waits, once (`kept`); those that have not given up were served in their
order (`order`); and the buffers of those that were not completed are as they were (`unread`). -/
structure Delivers (c : Connection) (ips : List InPac) (reqs replies : List Request) (c' : Connection) : Prop where
  serves : Serves (c.packetQueue ++ ips) replies c'.packetQueue
  order : ((replies.filter fun r => r.state ≠ .timeout).map asked ++ c'.reqQueue.map asked).Sublist
    ((c.reqQueue ++ reqs).map asked)
  kept : (replies.map asked ++ c'.reqQueue.map asked).Perm ((c.reqQueue ++ reqs).map asked)
  unread : AsMade (c.reqQueue ++ reqs) (replies.filter (fun r => r.state ≠ .ok) ++ c'.reqQueue)

theorem Delivers.refl (c : Connection) : Delivers c [] [] [] c := by
  constructor
  · simpa using Serves.done c.packetQueue
  · simp
  · simp
  · simpa using AsMade.refl c.reqQueue

theorem Delivers.trans {reqs reqs' replies replies' : List Request} (h : Delivers c ips reqs replies c')
    (h' : Delivers c' ips' reqs' replies' c'') :
    Delivers c (ips ++ ips') (reqs ++ reqs') (replies ++ replies') c'' := by
  constructor
  · rw [← List.append_assoc]
    exact (h.serves.append ips').trans h'.serves
  · have h₁ := (h'.order.append_left ((replies.filter fun r => r.state ≠ .timeout).map asked))
    have h₂ := h.order.append_right (reqs'.map asked)
    simp only [List.filter_append, List.map_append, List.append_assoc] at h₁ h₂ ⊢
    exact h₁.trans h₂
  · have h₁ := (h'.kept.append_left (replies.map asked))
    have h₂ := h.kept.append_right (reqs'.map asked)
    simp only [List.map_append, List.append_assoc] at h₁ h₂ ⊢
    exact h₁.trans h₂
  · have hreplied : AsMade (c.reqQueue ++ (reqs ++ reqs')) (replies.filter fun r => r.state ≠ .ok) := fun r hr =>
      h.unread.mono (by simp) r (List.mem_append_left _ hr)
    have hwaiting : AsMade (c.reqQueue ++ (reqs ++ reqs')) (c'.reqQueue ++ reqs') := by
      refine .append (fun r hr => h.unread.mono (by simp) r (List.mem_append_right _ hr)) ?_
      exact (AsMade.refl reqs').mono (by simp)
    rw [List.filter_append, List.append_assoc]
    exact hreplied.append (hwaiting.trans h'.unread)

/-- There is no packet, or no request. -/
def Drained (c : Connection) : Prop := c.packetQueue = [] ∨ c.reqQueue = []

/-- The connection is connected, and all requests that wait are reads. -/
structure Reading (c : Connection) : Prop where
  state : c.state = csConnected
  reads : ∀ r ∈ c.reqQueue, r.type = rtRead
  short : Short c.packetQueue

/-- It stays so. -/
theorem Delivers.reading {reqs replies : List Request} (h : Delivers c ips reqs replies c') (hc : Reading c)
    (hs : c'.state = c.state) (hi : Short ips) (hr : ∀ r ∈ reqs, r.type = rtRead) : Reading c' := by
  refine ⟨hs.trans hc.state, fun r hm => ?_, fun ip hip => ?_⟩
  · have hk : asked r ∈ (c.reqQueue ++ reqs).map asked :=
      h.kept.mem_iff.1 (List.mem_append_right _ (List.mem_map_of_mem hm))
    obtain ⟨q, hq, he⟩ := List.mem_map.1 hk
    have hte : q.type = r.type := congrArg (fun k => k.2.1) he
    rw [← hte]
    rcases List.mem_append.1 hq with hq | hq
    · exact hc.reads q hq
    · exact hr q hq
  · obtain ⟨taken, he, -⟩ := h.serves.payloads
    have hm : ip ∈ c.packetQueue ++ ips := by
      rw [he]
      exact List.mem_append_right _ hip
    rcases List.mem_append.1 hm with hm | hm
    · exact hc.short ip hm
    · exact hi ip hm

/-- `APB_PushToClient` delivers. -/
theorem push_delivers (hs : c.state = csConnected) (h : Short c.packetQueue) : Delivers c [] [] (push c).1 (push c).2 := by
  have hfilter : (deliver c.packetQueue c.reqQueue).replied.filter (fun r => r.state ≠ .timeout) =
      (deliver c.packetQueue c.reqQueue).replied := by
    rw [List.filter_eq_self]
    intro r hr
    simpa using deliver_state _ _ r hr
  unfold push
  rw [if_neg (by simpa using hs)]
  constructor
  · rw [List.append_nil]
    exact deliver_serves h
  · rw [List.append_nil]
    show ((List.filter _ _).map asked ++ _).Sublist _
    rw [hfilter, deliver_keys]
  · rw [List.append_nil]
    show List.Perm (_ ++ _) _
    rw [deliver_keys]
  · rw [List.append_nil]
    exact deliver_asMade _ _

/-- **It leaves no packet next to a request**, and no request gives up. -/
theorem push_drained (hs : c.state = csConnected) :
    (∀ r ∈ (push c).1, r.state ≠ .timeout) ∧ Drained (push c).2 := by
  unfold push
  rw [if_neg (by simpa using hs)]
  exact ⟨deliver_state _ _, deliver_exhausts _ _⟩

/-- The packets that come in. -/
def Act.packets : Act → List InPac
  | .packet ip => [ip]
  | .request _ => []
  | .tick => []

/-- The requests that come in. -/
def Act.requests : Act → List Request
  | .packet _ => []
  | .request req => [req]
  | .tick => []

/-- The packet is one that the reader made. Its data may be in two pieces. -/
def FromReader (ip : InPac) : Prop :=
  ∃ (m : Reader) (p : InPacket), ip.pac = m.view p ∧ p.data1Length + p.data2Length < 65536

theorem FromReader.short (h : FromReader ip) : ip.pac.data.length < 65536 := by
  obtain ⟨m, p, hp, hl⟩ := h
  rw [hp]
  simpa [Reader.view, Reader.inPacketToBuffer] using hl

/-- Data, reads and ticks. -/
def Act.OnlyData : Act → Prop
  | .packet ip => ip.pac.type = ptData ∧ FromReader ip
  | .request req => req.type = rtRead
  | .tick => True

/-- What `act` does at `c`. When a packet or a read has come, there is no packet next to a request any more, and no read
gives up; a tick replies to nothing but reads whose time is up. -/
structure Handled (c : Connection) (act : Act) (out : List Request) (c' : Connection) : Prop where
  delivers : Delivers c act.packets act.requests out c'
  served : act ≠ .tick → (∀ r ∈ out, r.state ≠ .timeout) ∧ Drained c'
  ticked : act = .tick → (∀ r ∈ out, r.state = .timeout ∧ r.timeoutTicks = 1) ∧ (Drained c → Drained c')

/-- **A move handles what comes.** -/
theorem Move.handled {act : Act} {out : List Request} (m : Move c act out c') (hc : Reading c) (ha : act.OnlyData) :
    Handled c act out c' ∧ c'.state = c.state := by
  have hlt : ¬csDisconnecting ≤ csConnected := by decide
  cases m with
  | connected ht _ => exact absurd (ht.symm.trans ha.1) (by decide)
  | noHandler ht _ => exact absurd (ht.symm.trans ha.1) (by decide)
  | dropped _ hs =>
    rw [hc.state] at hs
    exact absurd hs hlt
  | @queued ip _ _ =>
    have hshort : Short (c.packetQueue ++ [ip]) := by
      intro q hq
      rcases List.mem_append.1 hq with hq | hq
      · exact hc.short q hq
      · rw [List.mem_singleton.1 hq]
        exact ha.2.short
    have h : Delivers c [ip] [] [] { c with packetQueue := c.packetQueue ++ [ip] } :=
      ⟨.done _, by simp, by simp, by simpa using AsMade.refl c.reqQueue⟩
    exact ⟨⟨h.trans (push_delivers hc.state hshort), fun _ => push_drained hc.state, fun h => by cases h⟩, push_state _⟩
  | opened ht _ => exact absurd (ht.symm.trans ha) (by decide)
  | @read req ht _ =>
    have h : Delivers c [] [req] [] { c with reqQueue := c.reqQueue ++ [received c req] } := by
      have hk : asked (received c req) = asked req := rfl
      refine ⟨by simpa using Serves.done c.packetQueue, ?_, ?_, ?_⟩
      · simp [hk]
      · simp [hk]
      · show AsMade (c.reqQueue ++ [req]) (c.reqQueue ++ [received c req])
        refine .append ((AsMade.refl c.reqQueue).mono (List.subset_append_left _ _)) fun r hr => ?_
        rw [List.mem_singleton.1 hr]
        exact ⟨req, by simp, rfl, rfl⟩
    exact ⟨⟨h.trans (push_delivers hc.state hc.short), fun _ => push_drained hc.state, fun h => by cases h⟩, push_state _⟩
  | answered _ ht hr _ =>
    obtain ⟨-, hu⟩ := hr (ht.trans ha)
    unfold Unreadable at hu
    rw [hc.state] at hu
    exact absurd hu (by decide)
  | tick =>
    obtain ⟨hleft, hall⟩ := tickRequests_map asked (fun _ _ _ => rfl) c.reqQueue
    have hnone : (tickRequests c.reqQueue).1.toList.filter (fun r => r.state ≠ .timeout) = [] := by
      rw [List.filter_eq_nil_iff]
      intro r hr
      simpa using tickRequests_state hr
    refine ⟨⟨⟨?_, ?_, ?_, ?_⟩, fun h => absurd rfl h, fun _ => ⟨fun r hr => ?_, fun hd => ?_⟩⟩, rfl⟩
    · simpa [Act.packets] using Serves.timeouts c.packetQueue fun r => tickRequests_state
    · rw [hnone]
      simpa [Act.requests] using hleft
    · simpa [Act.requests] using hall
    · rw [Act.requests, List.append_nil]
      refine .append (fun r hr => ?_) fun r hr => ?_
      · obtain ⟨q, hq, -, rfl⟩ := tickRequests_expired (List.mem_filter.1 hr).1
        exact ⟨q, hq, rfl, rfl⟩
      · obtain ⟨q, hq, n, rfl, -⟩ := tickRequests_left hr
        exact ⟨q, hq, rfl, rfl⟩
    · obtain ⟨q, -, ht, rfl⟩ := tickRequests_expired hr
      exact ⟨rfl, ht⟩
    · refine hd.imp_right fun he => ?_
      show (tickRequests c.reqQueue).2 = []
      rw [he, tickRequests]

/-! ## Runs -/

/-- The connection with this number. -/
def connection (s : Server) (k : Nat) : Option Connection := s.connections.find? fun c => c.num = k

/-- Something comes to connection `k`. -/
def happen (env : Env) (k : Nat) (s : Server) : Act → Option Server
  | .packet ip => (s.connection k).map fun c => s.handleConnectionPacket env c ip
  | .request req => (s.connection k).map fun c => s.handleClientRequest env c req
  | .tick => (s.connection k).map fun c => s.cnnCheckRequestTimeouts c

theorem connection_num {k : Nat} (h : s.connection k = some c) : c.num = k := by
  simpa using List.find?_some h

theorem mem_of_connection {k : Nat} (h : s.connection k = some c) : c ∈ s.connections := List.mem_of_find?_eq_some h

theorem connection_put {k : Nat} (h : s.connection k = some c) (hnum : c'.num = c.num)
    (hs : s'.connections = Keyed.put Connection.num s.connections c') : s'.connection k = some c' := by
  have hk := connection_num h
  unfold connection at h ⊢
  rw [hs, Keyed.put, List.find?_map]
  have hf : (fun b : Connection => decide (b.num = k)) ∘ (fun b => if b.num = c'.num then c' else b) =
      fun b => decide (b.num = k) := by
    funext b
    simp only [Function.comp_apply]
    split
    · next he => rw [he]
    · rfl
  rw [hf, h]
  simp [hnum]

/-- Connection `k` handles the event. -/
def Handles (env : Env) (k : Nat) (s : Server) (act : Act) : Prop :=
  ∃ s' c c' out, happen env k s act = some s' ∧ s.connection k = some c ∧ s'.connection k = some c' ∧
    s'.replied = s.replied ++ out ∧ Handled c act out c'

/-- **One event of the traffic.** -/
theorem happen_handled (d : s.Distinct) {k : Nat} (hc : s.connection k = some c) (hr : Reading c) {act : Act}
    (ha : act.OnlyData) : ∃ s' c' out, happen env k s act = some s' ∧ s'.Distinct ∧ s'.connection k = some c' ∧
      Reading c' ∧ s'.replied = s.replied ++ out ∧ Handled c act out c' := by
  have hm := mem_of_connection hc
  obtain ⟨s', he, hd, out, c', m, h₁, h₂⟩ : ∃ s', happen env k s act = some s' ∧ s'.Distinct ∧ Moved s c act s' := by
    cases act with
    | packet ip =>
      refine ⟨_, by rw [happen, hc, Option.map_some], ?_, ?_⟩
      · exact (accounted_handleConnectionPacket env d hm ip).distinct
      · rcases handleConnectionPacket_moved env d hm ip with h | ⟨h, -⟩
        · exact h
        · exact absurd (h.symm.trans ha.1) (by decide)
    | request req =>
      refine ⟨_, by rw [happen, hc, Option.map_some], ?_, handleClientRequest_moved env d hm req⟩
      exact (accounted_handleClientRequest env d hm req).distinct
    | tick =>
      refine ⟨_, by rw [happen, hc, Option.map_some], ?_, cnnCheckRequestTimeouts_moved s c⟩
      have d' : ({ s with replied := s.replied ++ (tickRequests c.reqQueue).1.toList } : Server).Distinct :=
        d.congr rfl (Nat.le_refl _)
      exact d'.put _
  obtain ⟨hh, hst⟩ := m.handled hr ha
  refine ⟨s', c', out, he, hd, connection_put hc m.num h₂, hh.delivers.reading hr hst ?_ ?_, h₁, hh⟩
  · cases act with
    | packet ip =>
      intro q hq
      rw [List.mem_singleton.1 hq]
      exact ha.2.short
    | request req => intro q hq; cases hq
    | tick => intro q hq; cases hq
  · cases act with
    | packet ip => intro q hq; cases hq
    | request req =>
      intro q hq
      rw [List.mem_singleton.1 hq]
      exact ha
    | tick => intro q hq; cases hq

/-- **The traffic on a connection** is handled, event by event. -/
theorem runs_handled (env : Env) {acts : List Act} (d : s.Distinct) {k : Nat} (hc : s.connection k = some c) (hr : Reading c)
    (ha : ∀ act ∈ acts, act.OnlyData) : ∃ s' c' out, runs (happen env k) s acts = some s' ∧
      s'.connection k = some c' ∧ Reading c' ∧ s'.replied = s.replied ++ out ∧
      Delivers c (acts.flatMap Act.packets) (acts.flatMap Act.requests) out c' ∧
      (Drained c ∨ (∃ act ∈ acts, act ≠ .tick) → Drained c') ∧ Along (Handles env k) (happen env k) s acts := by
  induction acts generalizing s c with
  | nil => exact ⟨s, c, [], rfl, hc, hr, (List.append_nil _).symm, .refl c, fun h => h.resolve_right (by simp), trivial⟩
  | cons act acts ih =>
    have hacts : ∀ a ∈ acts, a.OnlyData := fun a hm => ha a (List.mem_cons_of_mem _ hm)
    obtain ⟨s₁, c₁, out₁, he₁, hd₁, hc₁, hr₁, hout₁, hh⟩ := happen_handled d hc hr (ha act List.mem_cons_self)
    obtain ⟨s₂, c₂, out₂, he₂, hc₂, hr₂, hout₂, hdel, hdrained, halong⟩ := ih hd₁ hc₁ hr₁ hacts
    refine ⟨s₂, c₂, out₁ ++ out₂, (runs_cons he₁).trans he₂, hc₂, hr₂, ?_, ?_, fun h => hdrained ?_, ?_⟩
    · rw [hout₂, hout₁, List.append_assoc]
    · simpa only [List.flatMap_cons] using hh.delivers.trans hdel
    · -- the first event, or one of the others
      by_cases ht : act = .tick
      · rcases h with h | ⟨a, hm, hne⟩
        · exact .inl ((hh.ticked ht).2 h)
        · rcases List.mem_cons.1 hm with rfl | hm
          · exact absurd ht hne
          · exact .inr ⟨a, hm, hne⟩
      · exact .inl (hh.served ht).2
    · exact (along_cons he₁).2 ⟨⟨s₁, c, c₁, out₁, he₁, hc, hc₁, hout₁, hh⟩, halong⟩

/-- **Reads deliver the data of a connection in order.** While it is connected and only read from, whatever packets with
data, reads and ticks come to it, in any order: it stays so; every read that came is replied to or waits, once; those
that have not given up are served in their order; and the replies serve the packets that came. In particular the
completed reads carry the first of them. Each event is handled when it comes: as soon as a packet or a read has come,
there is never a packet next to a read that waits. -/
theorem reads_in_order (env : Env) {s : Server} {c : Connection} {k : Nat} {acts : List Act} (d : s.Distinct)
    (hc : s.connection k = some c) (hr : Reading c) (ha : ∀ act ∈ acts, act.OnlyData) :
    ∃ s' c' replies, runs (happen env k) s acts = some s' ∧ s'.connection k = some c' ∧ Reading c' ∧
      s'.replied = s.replied ++ replies ∧
      Delivers c (acts.flatMap Act.packets) (acts.flatMap Act.requests) replies c' ∧
      (∃ taken, c.packetQueue ++ acts.flatMap Act.packets = taken ++ c'.packetQueue ∧
        (replies.filter fun r => r.state = .ok).map Request.data = taken.map fun ip => ip.pac.data) ∧
      (Drained c ∨ (∃ act ∈ acts, act ≠ .tick) → Drained c') ∧ Along (Handles env k) (happen env k) s acts := by
  obtain ⟨s', c', out, he, hc', hr', ho, hdel, hdrained, halong⟩ := runs_handled env d hc hr ha
  exact ⟨s', c', out, he, hc', hr', ho, hdel, hdel.serves.payloads, hdrained, halong⟩

/-- A connection that is connected. -/
def quietConnection : Connection :=
  { num := 0, id := 1, handlerId := 1, state := csConnected, packetQueue := [], reqQueue := [] }

/-- Five bytes at the end of one buffer and at the start of another. -/
def twoPieces : InPac :=
  let m : Reader :=
    { inBuf := none, queue := [], queueSize := 0, ibs := fun _ => ⟨0, none, 0, 0, false⟩,
      bufs := fun b => ⟨4, fun i => UInt8.ofNat (10 * b + i)⟩, ibUse := [], bufUse := [] }
  ⟨0, 3, m.view ⟨0, ptData, 0, 1, 3, 2, some (0, 2), 3, some (1, 0), none⟩⟩

/-- A server with that connection. -/
def readFrom : Server := { start with connections := [quietConnection], creations := 1 }

/-- The packet arrives; the first read has no room for it, the second has, and the third waits for a tick. -/
def threeReads : List Act :=
  [.packet twoPieces, .request { ask rtRead 1 with num := 1, length := 4 }, .request { ask rtRead 1 with num := 2 },
    .request { ask rtRead 1 with num := 3, timeout := 1 }, .tick]

theorem reads_in_order_three : ∃ s' c' replies, runs (happen plenty 0) readFrom threeReads = some s' ∧
    s'.connection 0 = some c' ∧ s'.replied = replies ∧ Drained c' ∧
    replies.map (fun r => (r.num, r.state, r.actual, r.data)) =
      [(1, .bufferTooSmall, 5, []), (2, .ok, 5, [2, 3, 10, 11, 12]), (3, .timeout, 0, [])] ∧
    ∃ taken, [twoPieces] = taken ++ c'.packetQueue ∧
      (replies.filter fun r => r.state = .ok).map Request.data = taken.map fun ip => ip.pac.data := by
  have hd : readFrom.Distinct := ⟨by decide, fun c hc => by rw [List.mem_singleton.1 hc]; decide⟩
  have hr : Reading quietConnection := ⟨rfl, fun r hm => (by cases hm), fun ip hm => by cases hm⟩
  have htwo : FromReader twoPieces := ⟨_, _, rfl, by decide⟩
  have ha : ∀ act ∈ threeReads, act.OnlyData := by
    simp only [threeReads, List.forall_mem_cons]
    exact ⟨⟨rfl, htwo⟩, rfl, rfl, rfl, trivial, fun _ h => by cases h⟩
  have hc : readFrom.connection 0 = some quietConnection := by decide
  have hreplied : (runs (happen plenty 0) readFrom threeReads).map (fun x =>
      x.replied.map fun r => (r.num, r.state, r.actual, r.data)) =
      some [(1, .bufferTooSmall, 5, []), (2, .ok, 5, [2, 3, 10, 11, 12]), (3, .timeout, 0, [])] := by
    decide +kernel
  obtain ⟨s', c', replies, he, hc', -, ho, -, ht, hdrained, -⟩ := reads_in_order plenty hd hc hr ha
  rw [he, Option.map_some, Option.some.injEq, ho] at hreplied
  exact ⟨s', c', replies, he, hc', ho, hdrained (.inl (.inl rfl)), hreplied, ht⟩

end AmiPiBorg.Server
