import AmiPiBorg.Reader.Exact
import AmiPiBorg.Reader.Spans

/-!
# Packets are released while others come in

A packet that is released leaves those that wait, and its memory may be used again. What is left to say of it is that its
bytes were on the stream: `absorb` takes it off the segments and makes garbage of its bytes before the next packet, where
the parser does not come any more. So a release keeps the reader in step with a stream of fewer packets
(`synced_release`), and the packets that were taken from the queue are still the first ones that arrived, each with its
payload until it is released (`reader_exact_released`).
-/

set_option autoImplicit false

namespace AmiPiBorg

open ProgLib

/-! ## Segments without a packet -/

namespace Segment

theorem size_even (g : Segment) : g.size % 2 = 0 := by
  have h₁ := g.even
  have h₂ := g.packet.size_even
  simp only [size]
  omega

/-- The second segment, with all of the first as garbage. -/
def merge (g g' : Segment) : Segment where
  garbage := g.bytes ++ g'.garbage
  packet := g'.packet
  even := by
    have h₁ := g.size_even
    have h₂ := g'.even
    simp only [List.length_append, length_bytes]
    omega

theorem bytes_merge (g g' : Segment) : (g.merge g').bytes = g.bytes ++ g'.bytes := by
  simp [merge, bytes]

theorem size_merge (g g' : Segment) : (g.merge g').size = g.size + g'.size := by
  rw [← length_bytes, bytes_merge, List.length_append, length_bytes, length_bytes]

/-- The segments without the packet at `j`. -/
def absorb : Nat → List Segment → List Segment
  | 0, g :: g' :: gs => g.merge g' :: gs
  | j + 1, g :: gs => g :: absorb j gs
  | _, gs => gs

/-- The packets that the first `n` bytes bring. -/
def arrived (gs : List Segment) (n : Nat) : List Incoming := (completed size gs n).map incoming

theorem streamOf_absorb (j : Nat) (gs : List Segment) : streamOf (absorb j gs) = streamOf gs := by
  fun_induction absorb j gs with
  | case1 g g' gs => simp [bytes_merge]
  | case2 j g gs ih => rw [streamOf_cons, streamOf_cons, ih]
  | case3 => rfl

/-- **Of what arrives, the packet at `j` is missing.** -/
theorem arrived_absorb {j : Nat} {gs : List Segment} {n : Nat} (hj : j + 1 < gs.length) (hn : j < (arrived gs n).length) :
    arrived (absorb j gs) n = (arrived gs n).eraseIdx j := by
  unfold arrived at hn ⊢
  fun_induction absorb j gs generalizing n with
  | case1 g g' gs =>
    by_cases h : g.size ≤ n
    · rw [completed_cons_of_le h, List.map_cons, List.eraseIdx_cons_zero]
      by_cases h' : g.size + g'.size ≤ n
      · rw [completed_cons_of_le (by rw [size_merge]; exact h'), completed_cons_of_le (by omega), size_merge,
          Nat.sub_add_eq]
        rfl
      · rw [completed_cons_of_lt (by rw [size_merge]; omega), completed_cons_of_lt (by omega)]
    · rw [completed_cons_of_lt (by omega)] at hn
      exact absurd hn (Nat.not_lt_zero 0)
  | case2 j g gs ih =>
    by_cases h : g.size ≤ n
    · rw [completed_cons_of_le h, List.map_cons, List.length_cons] at hn
      rw [completed_cons_of_le h, completed_cons_of_le h, List.map_cons, List.map_cons, List.eraseIdx_cons_succ,
        ih (by simpa using hj) (by omega)]
    · rw [completed_cons_of_lt (by omega)] at hn
      exact absurd hn (Nat.not_lt_zero _)
  | case3 j gs h₁ h₂ =>
    -- too few segments for a packet at `j` and another one
    match j, gs, h₁, h₂, hj with
    | 0, g :: g' :: gs, h₁, _, _ => exact absurd rfl (h₁ g g' gs rfl)
    | j + 1, g :: gs, _, h₂, _ => exact absurd rfl (h₂ j g gs rfl)

/-- A stream that is not complete lacks its last packet. -/
theorem length_arrived_lt : ∀ {gs : List Segment} {n : Nat}, n < (streamOf gs).length → (arrived gs n).length < gs.length
  | [], _, h => absurd h (Nat.not_lt_zero _)
  | g :: gs, n, h => by
    rw [streamOf_cons, List.length_append, length_bytes] at h
    unfold arrived
    by_cases hn : g.size ≤ n
    · rw [completed_cons_of_le hn, List.map_cons, List.length_cons, List.length_cons]
      exact Nat.succ_lt_succ (length_arrived_lt (by omega))
    · rw [completed_cons_of_lt (by omega)]
      exact Nat.succ_pos _

theorem arrived_prefix : ∀ (gs : List Segment) {n m : Nat}, n ≤ m → arrived gs n <+: arrived gs m
  | [], _, _, _ => List.prefix_refl _
  | g :: gs, n, m, h => by
    unfold arrived
    by_cases hn : g.size ≤ n
    · rw [completed_cons_of_le hn, completed_cons_of_le (by omega), List.map_cons, List.map_cons]
      exact List.cons_prefix_cons.2 ⟨rfl, arrived_prefix gs (by omega)⟩
    · rw [completed_cons_of_lt (by omega)]
      exact List.nil_prefix

/-- From the byte `n` on, the same packets come in. -/
def Agree (gs gs' : List Segment) (n : Nat) : Prop :=
  ∀ m ≥ n, ∃ new, arrived gs m = arrived gs n ++ new ∧ arrived gs' m = arrived gs' n ++ new

theorem Agree.refl (gs : List Segment) (n : Nat) : Agree gs gs n := fun m hm => by
  obtain ⟨new, h⟩ := arrived_prefix gs hm
  exact ⟨new, h.symm, h.symm⟩

theorem Agree.mono {gs gs' : List Segment} {n n' : Nat} (h : Agree gs gs' n) (hn : n ≤ n') : Agree gs gs' n' := by
  intro m hm
  obtain ⟨new, h₁, h₂⟩ := h n' hn
  obtain ⟨all, h₃, h₄⟩ := h m (hn.trans hm)
  obtain ⟨later, h₅⟩ := arrived_prefix gs hm
  have he : all = new ++ later := by
    rw [← h₅, h₁, List.append_assoc, List.append_cancel_left_eq] at h₃
    exact h₃.symm
  exact ⟨later, h₅.symm, by rw [h₄, h₂, he, List.append_assoc]⟩

theorem Agree.absorb {gs gs' : List Segment} {n j : Nat} (h : Agree gs gs' n) (hj : j + 1 < gs'.length)
    (hn : j < (arrived gs' n).length) : Agree gs (Segment.absorb j gs') n := by
  intro m hm
  obtain ⟨new, h₁, h₂⟩ := h m hm
  refine ⟨new, h₁, ?_⟩
  rw [arrived_absorb hj (by rw [h₂, List.length_append]; omega), arrived_absorb hj hn, h₂,
    List.eraseIdx_append_of_lt_length hn]

/-! ### Packets without garbage -/

theorem even_nil : ([] : List UInt8).length % 2 = 0 := rfl

/-- The packet alone. -/
def bare (p : WirePacket) : Segment := ⟨[], p, even_nil⟩

theorem streamOf_bare (ps : List WirePacket) : streamOf (ps.map bare) = ps.flatMap WirePacket.bytes :=
  List.flatMap_map ..

theorem quiet_bare (ps : List WirePacket) : ∀ g ∈ ps.map bare, g.Quiet := by
  intro g hg
  obtain ⟨p, -, rfl⟩ := List.mem_map.1 hg
  exact fun k hk => absurd hk (Nat.not_lt_zero k)

theorem clear_bare : ∀ (ps : List WirePacket) (pos : Nat), Clear pos (ps.map bare)
  | [], _ => trivial
  | _ :: ps, _ => ⟨fun k hk => absurd hk (Nat.not_lt_zero k), clear_bare ps _⟩

theorem arrived_bare (ps : List WirePacket) (n : Nat) :
    arrived (ps.map bare) n = (completed WirePacket.size ps n).map WirePacket.incoming := by
  have hsize : (fun p => (bare p).size) = WirePacket.size := funext fun p => Nat.zero_add _
  rw [arrived, completed_map bare, hsize, List.map_map]
  rfl

/-! ### One more packet

So that every packet of a stream has one behind it. -/

theorem nil_short : ([] : List UInt8).length ≤ 4082 := Nat.zero_le _

/-- A packet without data. -/
def trailing : WirePacket := .sealed 0 0 0 [] nil_short

theorem sum_sizes (ps : List WirePacket) : (ps.map WirePacket.size).sum = (ps.flatMap WirePacket.bytes).length := by
  rw [List.length_flatMap]
  exact congrArg List.sum (List.map_congr_left fun p _ => p.length_bytes.symm)

theorem length_trailing (ps : List WirePacket) : ((ps ++ [trailing]).flatMap WirePacket.bytes).length =
    (ps.flatMap WirePacket.bytes).length + trailing.size := by
  rw [List.flatMap_append, List.flatMap_singleton, List.length_append, trailing.length_bytes]

theorem trailing_pos : 0 < trailing.size := Nat.lt_of_lt_of_le (by decide) trailing.le_size

theorem prefix_trailing {bs : List UInt8} {ps : List WirePacket} (h : bs <+: ps.flatMap WirePacket.bytes) :
    bs <+: (ps ++ [trailing]).flatMap WirePacket.bytes := by
  rw [List.flatMap_append]
  exact h.trans (List.prefix_append _ _)

/-- The last packet has not arrived. -/
theorem arrived_trailing (ps : List WirePacket) {n : Nat} (h : n ≤ (ps.flatMap WirePacket.bytes).length) :
    arrived ((ps ++ [trailing]).map bare) n = (completed WirePacket.size ps n).map WirePacket.incoming := by
  have hpos := trailing_pos
  have hsum := sum_sizes ps
  rw [arrived_bare, completed_concat_of_lt]
  omega

end Segment

/-! ## Other users of the memory -/

namespace Reader

/-- The buffers that the reader does not have in use are as others leave them. -/
def others (s : Reader) (bufs : BufPtr → Buffer) : Reader :=
  { s with bufs := fun b => if b ∈ s.bufUse then s.bufs b else bufs b }

variable {s : Reader} {bufs : BufPtr → Buffer} {S : Mem} {n base : Nat} {a : IbPtr} {b : BufPtr} {ip : InPacket}
  {l : List IbPtr}

theorem others_bufs (hb : b ∈ s.bufUse) : (s.others bufs).bufs b = s.bufs b := if_pos hb

theorem bytes_others (ha : (s.ibs a).buf ∈ s.bufUse) : (s.others bufs).bytes a = s.bytes a :=
  congrArg Buffer.offset (others_bufs ha)

theorem data_others (ha : (s.ibs a).buf ∈ s.bufUse) : (s.others bufs).data a = s.data a :=
  congrArg Buffer.data (others_bufs ha)

theorem Laid.others : ∀ {l : List IbPtr} {base : Nat}, s.Laid S n base l → (∀ a ∈ l, (s.ibs a).buf ∈ s.bufUse) →
    (s.others bufs).Laid S n base l
  | [], _, h, _ => h
  | a :: l, base, ⟨h₁, h₂, h₃, h₄⟩, hl => by
    have hb : (s.others bufs).bytes a = s.bytes a := bytes_others (hl a List.mem_cons_self)
    have hd : (s.others bufs).data a = s.data a := data_others (hl a List.mem_cons_self)
    refine ⟨h₁, ?_, ?_, h₄.others fun c hc => hl c (List.mem_cons_of_mem a hc)⟩
    · simpa only [Filled, hb] using h₂
    · simpa only [hb, hd] using h₃

theorem Stored.others {data : Option Addr} {len : Nat} (h : s.Stored data len) : (s.others bufs).Stored data len := by
  obtain h | ⟨b, off, hd, hb, hle⟩ := h
  · exact .inl h
  · exact .inr ⟨b, off, hd, hb, by rwa [others_bufs hb]⟩

theorem Stored.slice_others {data : Option Addr} {len : Nat} (h : s.Stored data len) :
    ((s.others bufs).mem data).slice 0 len = (s.mem data).slice 0 len := by
  obtain ⟨rfl, rfl⟩ | ⟨b, off, rfl, hb, -⟩ := h
  · rfl
  · simp only [mem, others_bufs hb]

theorem view_others (h : s.Stored ip.data1 ip.data1Length ∧ s.Stored ip.data2 ip.data2Length) :
    (s.others bufs).view ip = s.view ip := by
  simp only [view, inPacketToBuffer, h.1.slice_others, h.2.slice_others]

theorem Counted.others {held : List InPacket} {rb : Option BufPtr} (k : Counted held rb s l) :
    Counted held rb (s.others bufs) l := by
  refine ⟨{ k.1 with linked := ?_, inBuf := k.1.inBuf }, fun ip hip => (k.2 ip hip).congr rfl fun _ _ => rfl⟩
  refine { k.1.linked with bytes_le := fun a ha => ?_, chain := k.1.linked.chain }
  rw [bytes_others (k.1.buf a (k.1.linked.live a ha))]
  exact k.1.linked.bytes_le a ha

end Reader

/-! ## Releasing -/

namespace Rx

open Reader

variable {all cur : List Segment} {S : Mem} {n i : Nat} {x x' : Rx} {ip : InPacket} {al : Alloc} {fuel : Nat}

/-- **A release** leaves the other packets, and the parser where it is. -/
theorem synced_release (h : Synced cur S n x) (hex : x.Exact) (hi : x.held[i]? = some ip) (hj : i + 1 < cur.length)
    (hsafe : x.rd.SafeRelease ip) (hown : x.rd.OwnRelease ip) :
    Synced (Segment.absorb i cur) S n { x with rd := x.rd.releaseInPacket ip, held := x.held.eraseIdx i } := by
  obtain ⟨P, segs, base, l, rb, b, pr, hc, hb, hbu, hoff, hon, hnew⟩ := h
  obtain ⟨⟨L, k, hch⟩, -⟩ := hex
  obtain rfl := pr.parsing.1.chain.unique hch
  obtain ⟨k', hch'⟩ := k.release hch hi hsafe hown
  have hilt : i < x.held.length := (List.getElem?_eq_some_iff.1 hi).1
  have hbytes : (x.rd.releaseInPacket ip).bytes = x.rd.bytes := funext fun a => by simp [bytes]
  have hdata : (x.rd.releaseInPacket ip).data = x.rd.data := funext fun a => by simp [data]
  have hmem : (x.rd.releaseInPacket ip).mem = x.rd.mem := funext fun a => by cases a <;> simp [mem]
  have hsub : (x.held.eraseIdx i ++ (x.rd.releaseInPacket ip).queue).Sublist (x.held ++ x.rd.queue) := by
    rw [releaseInPacket_queue]
    exact (List.eraseIdx_sublist _ _).append_right _
  have hstored : ∀ q ∈ x.held.eraseIdx i ++ (x.rd.releaseInPacket ip).queue, ∀ {data : Option Addr} {len : Nat},
      data = q.data1 ∨ data = q.data2 → x.rd.Stored data len → (x.rd.releaseInPacket ip).Stored data len := by
    rintro q hq data len hd (h | ⟨b', off, rfl, -, hle⟩)
    · exact .inl h
    · obtain ⟨a, ha, rfl⟩ := (k'.2 q hq).data b' off (hd.imp Eq.symm Eq.symm)
      exact .inr ⟨_, off, rfl, k'.1.buf a (k'.live hq ha), by rwa [releaseInPacket_bufs]⟩
  have v := pr.parsing.1
  have hhead : (x.rd.releaseInPacket ip).headOffset l = x.rd.headOffset l := by
    cases l with
    | nil => rfl
    | cons a l => exact releaseInPacket_offset x.rd ip
  refine ⟨P, segs, base, l, rb, b, ⟨⟨⟨hch', v.laid.of_eq hbytes hdata, v.aligned, ?_, ?_, ?_⟩, .inl rfl⟩, k'.1.owned,
    fun hpos => ?_, pr.even, pr.ahead, ?_, ?_, pr.quiet, pr.clear, fun q hq => ?_, fun m hm => ?_⟩, hc, hb,
    (k'.1.read b hb).1, ?_, hon, fun h0 a ha => ?_⟩
  · rw [v.pos, hhead]
  · intro a ha
    rw [releaseInPacket_offset, hbytes]
    exact v.head_le a ha
  · intro a ha
    rw [releaseInPacket_offset]
    exact v.tail a ha
  · obtain ⟨a, ha, hab⟩ := pr.last hpos
    exact ⟨a, ha, by rw [releaseInPacket_buf, hab]⟩
  · rw [Segment.streamOf_absorb, pr.total]
  · rw [Segment.streamOf_absorb]
    exact pr.within
  · obtain ⟨h₁, h₂⟩ := pr.stored q (hsub.subset hq)
    exact ⟨hstored q hq (.inl rfl) h₁, hstored q hq (.inr rfl) h₂⟩
  · -- the packet is one of those that were queued before `P`
    have hq : Segment.arrived cur m = (x.held ++ x.rd.queue).map x.rd.view ++ Segment.arrived segs (m - P) :=
      pr.queued m hm
    have hlt : i < ((x.held ++ x.rd.queue).map x.rd.view).length := by
      rw [List.length_map, List.length_append]
      omega
    have habs := Segment.arrived_absorb hj (n := m) (by rw [hq, List.length_append]; omega)
    show Segment.arrived _ m = _
    rw [habs, hq, List.eraseIdx_append_of_lt_length hlt, List.eraseIdx_map, List.eraseIdx_append_of_lt_length hilt,
      view_congr hmem, releaseInPacket_queue]
    rfl
  · rw [releaseInPacket_bufs]
    exact hoff
  · rw [releaseInPacket_buf]
    exact hnew h0 a ha

theorem synced_others (h : Synced cur S n x) (bufs : BufPtr → Buffer) :
    Synced cur S n { x with rd := x.rd.others bufs } := by
  obtain ⟨P, segs, base, l, rb, b, pr, hc, hb, hbu, hoff, hon, hnew⟩ := h
  have v := pr.parsing.1
  refine ⟨P, segs, base, l, rb, b, pr.transfer ⟨v.chain, v.laid.others pr.owned.bufUse, v.aligned, v.pos, fun a ha => ?_,
    v.tail⟩ ⟨pr.owned.ibUse, pr.owned.bufUse, pr.owned.nodup⟩ pr.last pr.within rfl
    (fun q hq => ⟨(pr.stored q hq).1.others, (pr.stored q hq).2.others⟩) fun q hq => view_others (pr.stored q hq),
    hc, hb, hbu, ?_, hon, hnew⟩
  · rw [bytes_others (pr.owned.bufUse a (List.mem_of_mem_head? ha))]
    exact v.head_le a ha
  · rw [others_bufs hbu]
    exact hoff

theorem exact_others (h : x.Exact) (bufs : BufPtr → Buffer) : Exact { x with rd := x.rd.others bufs } := by
  obtain ⟨⟨L, k, hc⟩, hb⟩ := h
  refine ⟨⟨L, k.others, hc⟩, fun b hrb => ?_⟩
  rw [others_bufs (k.1.read b hrb).1]
  exact hb b hrb

/-! ## What was taken from the queue -/

/-- Ghost: the packets as they were when they were taken from the queue, and those of them that are not released. -/
structure Taken where
  all : List Incoming
  held : List Incoming

/-- What an event adds to the account. -/
def note (x : Rx) : Event → Taken → Taken
  | .receive .., g => g
  | .dequeue, g =>
    let new := x.rd.dequeueInPacket.1.toList.map x.rd.view
    { all := g.all ++ new, held := g.held ++ new }
  | .release i, g => { g with held := g.held.eraseIdx i }

/-- Between events: the packets have come off the queue in the order of the stream, and those that are held are as they
were then. -/
structure InStep (all : List Segment) (S : Mem) (n : Nat) (x : Rx) (g : Taken) : Prop where
  synced : ∃ cur, Synced cur S n x ∧ streamOf cur = streamOf all ∧ Segment.Agree all cur n
  exact : x.Exact
  taken : Segment.arrived all n = g.all ++ x.rd.queue.map x.rd.view
  held : x.held.map x.rd.view = g.held

/-- Pools answer, and a packet is released that is held, out of its own buffers and without freeing one that the parser
has before it. -/
def Usable (x : Rx) : Event → Prop
  | .receive al _ => al.Succeeds
  | .dequeue => True
  | .release i => ∃ ip, x.held[i]? = some ip ∧ x.rd.SafeRelease ip ∧ x.rd.OwnRelease ip

variable {g : Taken} {bs : List UInt8}

theorem srvBeginRead_held (al : Alloc) (x : Rx) : (srvBeginRead al x).held = x.held := by
  obtain h | ⟨c, -, h⟩ := beginRead_cases al x
  · rw [h]
  · rw [h]

theorem receive_held (h : x.srvReceiveFromRemote fuel al bs = some x') : x'.held = x.held := by
  obtain ⟨-, rfl⟩ | ⟨b, rd, -, -, -, -, rfl⟩ := receive_cases h
  · rfl
  · exact srvBeginRead_held al _

theorem InStep.receive (h : InStep all S n x g) (hal : al.Succeeds) (hS : S.Holds n bs)
    (hfit : n % bufferSize + bs.length ≤ bufferSize) (hn : n + bs.length < (streamOf all).length) : ∃ N x',
    (∀ fuel ≥ N, x.step fuel (.receive al bs) = some x') ∧ InStep all S (n + bs.length) x' g := by
  obtain ⟨cur, hs, hstream, hagree⟩ := h.synced
  obtain ⟨N, x', hstep, hs'⟩ := synced_receive hs hal hS hfit (by rw [hstream]; exact hn.le)
  have hheld : x'.held = x.held := receive_held (hstep N (Nat.le_refl N))
  obtain ⟨new, hnew, hnew'⟩ := hagree (n + bs.length) (Nat.le_add_right ..)
  have hq : x.unreleased.map x.rd.view = Segment.arrived cur n := hs.queued
  have hq' : x'.unreleased.map x'.rd.view = Segment.arrived cur (n + bs.length) := hs'.queued
  -- what was there is as it was, and what is new is new in the whole stream, too
  rw [hnew', ← hq, unreleased, unreleased, List.map_append, List.map_append, List.append_assoc] at hq'
  obtain ⟨h₁, h₂⟩ := List.append_inj hq' (by rw [List.length_map, List.length_map, hheld])
  refine ⟨N, x', hstep, ⟨cur, hs', hstream, hagree.mono (Nat.le_add_right ..)⟩, ?_, ?_, h₁.trans h.held⟩
  · exact exact_step (e := .receive al bs) h.exact trivial (hstep N (Nat.le_refl N))
  · rw [hnew, h.taken, h₂, List.append_assoc]

theorem InStep.dequeue (h : InStep all S n x g) : ∃ x', (∀ fuel, x.step fuel .dequeue = some x') ∧
    InStep all S n x' (note x .dequeue g) := by
  obtain ⟨cur, hs, hstream, hagree⟩ := h.synced
  obtain ⟨q, m, hd, hq⟩ := dequeue_cases x.rd
  have hview : x.rd.dequeueInPacket.2.view = x.rd.view := by
    rw [hd]
    rfl
  have hstep : ∀ fuel, x.step fuel .dequeue =
      some { x with rd := x.rd.dequeueInPacket.2, held := x.held ++ x.rd.dequeueInPacket.1.toList } := fun _ => rfl
  refine ⟨_, hstep, ⟨cur, synced_dequeue hs, hstream, hagree⟩,
    exact_step (e := .dequeue) h.exact trivial (hstep 0), ?_, ?_⟩
  · show _ = _ ++ x.rd.dequeueInPacket.2.queue.map x.rd.dequeueInPacket.2.view
    rw [hview, h.taken, ← hq, hd, List.map_append, note, List.append_assoc]
  · show (x.held ++ _).map x.rd.dequeueInPacket.2.view = _
    rw [hview, List.map_append, h.held, note]

theorem InStep.release (h : InStep all S n x g) (hn : n < (streamOf all).length) (hok : x.Usable (.release i)) :
    ∃ x', (∀ fuel, x.step fuel (.release i) = some x') ∧ InStep all S n x' (note x (.release i) g) := by
  obtain ⟨cur, hs, hstream, hagree⟩ := h.synced
  obtain ⟨ip, hi, hsafe, hown⟩ := hok
  have hlen : i < (Segment.arrived cur n).length := by
    have hq : x.unreleased.map x.rd.view = Segment.arrived cur n := hs.queued
    rw [← hq, List.length_map, unreleased, List.length_append]
    have := (List.getElem?_eq_some_iff.1 hi).1
    omega
  have hj : i + 1 < cur.length := by
    have := Segment.length_arrived_lt (hstream ▸ hn)
    omega
  have hstep : ∀ fuel, x.step fuel (.release i) =
      some { x with rd := x.rd.releaseInPacket ip, held := x.held.eraseIdx i } := fun fuel => by simp only [step, hi]
  have hview : (x.rd.releaseInPacket ip).view = x.rd.view :=
    view_congr (funext fun a => by cases a <;> simp [mem])
  refine ⟨_, hstep, ⟨_, synced_release hs h.exact hi hj hsafe hown, (Segment.streamOf_absorb i cur).trans hstream,
    hagree.absorb hj hlen⟩, exact_step (e := .release i) h.exact (fun q hq => ?_) (hstep 0), ?_, ?_⟩
  · obtain rfl := Option.some.inj (hi.symm.trans hq)
    exact ⟨hsafe, hown⟩
  · show _ = g.all ++ (x.rd.releaseInPacket ip).queue.map (x.rd.releaseInPacket ip).view
    rw [hview, releaseInPacket_queue, h.taken]
  · show (x.held.eraseIdx i).map (x.rd.releaseInPacket ip).view = g.held.eraseIdx i
    rw [hview, ← h.held, List.eraseIdx_map]

theorem InStep.others (h : InStep all S n x g) (bufs : BufPtr → Buffer) :
    InStep all S n { x with rd := x.rd.others bufs } g := by
  obtain ⟨cur, hs, hstream, hagree⟩ := h.synced
  have hs' := synced_others hs bufs
  obtain ⟨P, segs, base, l, rb, b, pr, -⟩ := hs
  have hview : ∀ {qs : List InPacket}, (∀ q ∈ qs, q ∈ x.held ++ x.rd.queue) →
      qs.map (x.rd.others bufs).view = qs.map x.rd.view := fun hqs =>
    List.map_congr_left fun q hq => view_others (pr.stored q (hqs q hq))
  refine ⟨⟨cur, hs', hstream, hagree⟩, exact_others h.exact bufs, ?_, ?_⟩
  · exact h.taken.trans (congrArg _ (hview fun q hq => List.mem_append_right _ hq).symm)
  · exact (hview fun q hq => List.mem_append_left _ hq).trans h.held

/-! ## Runs -/

/-- What a read brings is the next part of the stream, and fits the read buffer. -/
def Arrives (all : List Segment) (n : Nat) : Event → Prop
  | .receive _ bs => (Mem.ofList (streamOf all)).Holds n bs ∧ n % bufferSize + bs.length ≤ bufferSize
  | _ => True

theorem InStep.step {e : Event} (h : InStep all (Mem.ofList (streamOf all)) n x g) (hu : x.Usable e)
    (ha : Arrives all n e) (hn : n + e.bytes.length < (streamOf all).length) : ∃ N x',
    (∀ fuel ≥ N, x.step fuel e = some x') ∧
      InStep all (Mem.ofList (streamOf all)) (n + e.bytes.length) x' (note x e g) := by
  cases e with
  | receive al bs => exact h.receive hu ha.1 ha.2 hn
  | dequeue =>
    obtain ⟨x', hx, h'⟩ := h.dequeue
    exact ⟨0, x', fun fuel _ => hx fuel, h'⟩
  | release i =>
    obtain ⟨x', hx, h'⟩ := h.release hn hu
    exact ⟨0, x', fun fuel _ => hx fuel, h'⟩

/-- Every part of the stream arrives in its place. -/
theorem arrives_of_prefix {e : Event} {es : List Event} {pre : List UInt8} (hfit : Fits pre.length (e :: es))
    (hpre : pre ++ e.bytes ++ received es <+: streamOf all) :
    Arrives all pre.length e ∧ Fits (pre ++ e.bytes).length es := by
  cases e with
  | receive al bs =>
    refine ⟨⟨Mem.holds_of_prefix ((List.prefix_append _ _).trans hpre), hfit.1⟩, ?_⟩
    rw [List.length_append]
    exact hfit.2
  | dequeue => exact ⟨trivial, by simpa [Event.bytes, Fits] using hfit⟩
  | release i => exact ⟨trivial, by simpa [Event.bytes, Fits] using hfit⟩

/-- **A run**, with an invariant `I` of the events that are `ok`, from which these are `Usable`. -/
theorem inStep_run (I : Rx → Prop) {ok : Rx → Event → Prop}
    (hI : ∀ n x g e, InStep all (Mem.ofList (streamOf all)) n x g → I x → ok x e → Arrives all n e →
      n + e.bytes.length < (streamOf all).length → x.Usable e ∧ ∀ fuel x', x.step fuel e = some x' → I x') :
    ∀ {es : List Event} (pre : List UInt8) {M : Nat} {x : Rx} {g : Taken},
    InStep all (Mem.ofList (streamOf all)) pre.length x g → I x → (∀ fuel ≥ M, Along ok (step fuel) x es) →
    Fits pre.length es → pre ++ received es <+: streamOf all → (pre ++ received es).length < (streamOf all).length →
    ∃ N x' g', (∀ fuel ≥ N, runs (step fuel) x es = some x' ∧ noted note (step fuel) g x es = g') ∧
      InStep all (Mem.ofList (streamOf all)) (pre ++ received es).length x' g' ∧ I x'
  | [], pre, _, x, g, h, hx, _, _, _, _ => ⟨0, x, g, fun _ _ => ⟨rfl, rfl⟩, by simpa [received] using h, hx⟩
  | e :: es, pre, M, x, g, h, hx, hok, hfit, hpre, hlt => by
    rw [received_cons, ← List.append_assoc] at hpre hlt ⊢
    have hlen : pre.length + e.bytes.length < (streamOf all).length := by
      rw [List.length_append, List.length_append] at hlt
      omega
    obtain ⟨ha, hfit'⟩ := arrives_of_prefix hfit hpre
    obtain ⟨hu, hI'⟩ := hI _ x g e h hx (hok M (Nat.le_refl M)).1 ha hlen
    obtain ⟨N₁, x₁, hx₁, h₁⟩ := h.step hu ha hlen
    rw [← List.length_append] at h₁
    obtain ⟨N₂, x₂, g₂, hx₂, h₂⟩ := inStep_run I hI (M := max M N₁) (pre ++ e.bytes) h₁
      (hI' N₁ x₁ (hx₁ N₁ (Nat.le_refl N₁)))
      (fun fuel hf => (hok fuel (le_of_max_le_left hf)).2 x₁ (hx₁ fuel (le_of_max_le_right hf))) hfit' hpre hlt
    refine ⟨max N₁ N₂, x₂, g₂, fun fuel hf => ?_, h₂⟩
    have hs := hx₁ fuel (le_of_max_le_left hf)
    rw [runs_cons hs, noted_cons hs]
    exact hx₂ fuel (le_of_max_le_right hf)

theorem inStep_start (hal : al.Succeeds) (ibs : IbPtr → InBuffer) (bufs : BufPtr → Buffer)
    (hq : ∀ g ∈ all, g.Quiet) (hc : Clear 0 all) :
    InStep all (Mem.ofList (streamOf all)) 0 (start al ibs bufs) ⟨[], []⟩ := by
  obtain ⟨b, hs⟩ := start_eq hal ibs bufs
  refine ⟨⟨all, synced_start hal ibs bufs hq hc, rfl, .refl all 0⟩, exact_start al ibs bufs, ?_, ?_⟩
  · rw [hs, Segment.arrived, completed_eq_nil (by decide)]
    rfl
  · rw [hs]
    rfl

/-- The reader is exact on a stream of packets, as long as the events are `Usable`. -/
theorem exact_of_usable (I : Rx → Prop) {ok : Rx → Event → Prop} {ps : List WirePacket} {es : List Event} {M : Nat}
    (hal : al.Succeeds) (ibs : IbPtr → InBuffer) (bufs : BufPtr → Buffer) (hstart : I (start al ibs bufs))
    (hI : ∀ (all : List Segment) n x g e, InStep all (Mem.ofList (streamOf all)) n x g → I x → ok x e → Arrives all n e →
      n + e.bytes.length < (streamOf all).length → x.Usable e ∧ ∀ fuel x', x.step fuel e = some x' → I x')
    (hok : ∀ fuel ≥ M, Along ok (Rx.step fuel) (start al ibs bufs) es) (hfit : Fits 0 es)
    (hstream : received es <+: ps.flatMap WirePacket.bytes) :
    ∃ N x g, (∀ fuel ≥ N, runs (Rx.step fuel) (start al ibs bufs) es = some x ∧
        noted note (Rx.step fuel) ⟨[], []⟩ (start al ibs bufs) es = g) ∧
      g.all ++ x.rd.queue.map x.rd.view =
        (completed WirePacket.size ps (received es).length).map WirePacket.incoming ∧
      x.held.map x.rd.view = g.held ∧ x.Exact ∧ I x := by
  have hs : streamOf ((ps ++ [Segment.trailing]).map Segment.bare) = _ := Segment.streamOf_bare _
  have hlen := Segment.length_trailing ps
  have hpos := Segment.trailing_pos
  have hle := hstream.length_le
  obtain ⟨N, x, g, hx, h, hIx⟩ := inStep_run I (hI _) []
    (inStep_start hal ibs bufs (Segment.quiet_bare (ps ++ [Segment.trailing])) (Segment.clear_bare _ 0)) hstart hok hfit
    (by rw [List.nil_append, hs]; exact Segment.prefix_trailing hstream) (by rw [List.nil_append, hs]; omega)
  refine ⟨N, x, g, hx, ?_, h.held, h.exact, hIx⟩
  rw [← h.taken, List.nil_append, Segment.arrived_trailing ps hle]

/-- **The reader is exact while packets are released**: those that were taken from the queue, and behind them those that
are still on it, are the packets of the stream whose last byte has arrived, and a packet that is held is as it was when
it was taken. -/
theorem reader_exact_released (ps : List WirePacket) (al : Alloc) (ibs : IbPtr → InBuffer) (bufs : BufPtr → Buffer)
    (es : List Event) (M : Nat) (hal : al.Succeeds)
    (hok : ∀ fuel ≥ M, Along Usable (step fuel) (start al ibs bufs) es) (hfit : Fits 0 es)
    (hstream : received es <+: ps.flatMap WirePacket.bytes) :
    ∃ N x g, (∀ fuel ≥ N, runs (step fuel) (start al ibs bufs) es = some x ∧
        noted note (step fuel) ⟨[], []⟩ (start al ibs bufs) es = g) ∧
      g.all ++ x.rd.queue.map x.rd.view =
        (completed WirePacket.size ps (received es).length).map WirePacket.incoming ∧
      x.held.map x.rd.view = g.held := by
  obtain ⟨N, x, g, hx, hall, hheld, -⟩ := exact_of_usable (fun _ => True) hal ibs bufs trivial
    (fun _ _ _ _ _ _ _ hu _ _ => ⟨hu, fun _ _ _ => trivial⟩) hok hfit hstream
  exact ⟨N, x, g, hx, hall, hheld⟩

/-- A condition on events that the early release meets. -/
theorem early_along {ok : Rx → Event → Prop} (h₁ : ok fresh (.receive .unbounded fullPacket.bytes))
    (h₂ : ∀ x, ok x .dequeue) (h₃ : ∀ x ip, x.held = [ip] → x.rd.next ip.inBuf = none →
      (x.rd.ibs ip.inBuf).canRelease = false → ok x (.release 0)) :
    ∀ fuel ≥ 2, Along ok (Rx.step fuel) fresh earlyRelease := by
  obtain ⟨rd, -, -, hstep⟩ := full_received
  obtain ⟨x₁, x₂, -, ip, hx₁, hx₂, -, hheld, hnext, hrel⟩ := early_released
  refine fun fuel hf => ⟨h₁, fun y₁ hy₁ => ⟨h₂ y₁, fun y₂ hy₂ => ⟨?_, fun _ _ => trivial⟩⟩⟩
  cases hx₁.symm.trans ((hstep 2 (Nat.le_refl 2)).trans ((hstep fuel hf).symm.trans hy₁))
  cases hx₂.symm.trans hy₂
  exact h₃ _ ip hheld hnext hrel

theorem received_earlyRelease : received earlyRelease = fullPacket.bytes := List.append_nil _

theorem fits_earlyRelease : Fits 0 earlyRelease := ⟨by rw [length_fullPacket]; decide, trivial⟩

/-- A packet that fills its buffer is released before the next byte comes. -/
theorem reader_exact_released_early : ∃ N x g, (∀ fuel ≥ N, runs (step fuel) fresh earlyRelease = some x ∧
      noted note (step fuel) ⟨[], []⟩ fresh earlyRelease = g) ∧
    g.all ++ x.rd.queue.map x.rd.view = [fullPacket.incoming] ∧ x.held.map x.rd.view = g.held := by
  have hok : ∀ fuel ≥ 2, Along Usable (step fuel) fresh earlyRelease :=
    early_along Alloc.unbounded_succeeds (fun _ => trivial) fun x ip hheld hnext hrel =>
      ⟨ip, by rw [hheld]; rfl, ⟨fun _ h => absurd (hrel.symm.trans h) (by decide),
        fun b hb => absurd (hnext.symm.trans hb) nofun⟩, fun _ => hnext⟩
  obtain ⟨N, x, g, hx, h₁, h₂⟩ := reader_exact_released [fullPacket] .unbounded (fun _ => default) (fun _ => default)
    earlyRelease 2 Alloc.unbounded_succeeds hok fits_earlyRelease (by simp [received_earlyRelease])
  refine ⟨N, x, g, hx, ?_, h₂⟩
  rw [h₁, received_earlyRelease, fullPacket.length_bytes, completed_cons_of_le (Nat.le_refl _)]
  rfl

end Rx

end AmiPiBorg
