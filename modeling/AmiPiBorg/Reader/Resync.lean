import AmiPiBorg.Reader.Exact

/-!
# Recovering from garbage

`Resyncs segs` says that garbage costs no packet: however the stream is cut into reads, the packets queued are the
packets that have arrived. It holds for garbage that is `Clear` of the buffer ends (`reader_resyncs`). Where a garbage
header lies in two buffers the parser goes to the third byte of the second one (`turn_straddle`), over whatever starts
before that; `late_garbage_loses_packet` is a stream where a packet does.
-/

set_option autoImplicit false

namespace AmiPiBorg.Rx

open ProgLib Reader

/-- However the stream is cut into reads, exactly its packets are queued, as soon as they have arrived. -/
def Resyncs (segs : List Segment) : Prop :=
  ∀ (al : Alloc) (ibs : IbPtr → InBuffer) (bufs : BufPtr → Buffer) (es : List Event), al.Succeeds →
    (∀ e ∈ es, e.Allowed) → Fits 0 es → received es <+: streamOf segs →
    ∃ N x, (∀ fuel ≥ N, runs (step fuel) (start al ibs bufs) es = some x) ∧
      x.unreleased.map x.rd.view = (completed Segment.size segs (received es).length).map Segment.incoming

/-- **Garbage that is clear of the buffer ends costs no packet.** -/
theorem reader_resyncs (segs : List Segment) (hq : ∀ g ∈ segs, g.Quiet) (hc : Clear 0 segs) : Resyncs segs := by
  intro al ibs bufs es hal hok hfit hstream
  obtain ⟨N, x, hx, hsync⟩ := synced_run [] (synced_start hal ibs bufs hq hc) hok hfit hstream
  exact ⟨N, x, hx, hsync.queued⟩

/-- Two bytes of garbage before a packet. -/
theorem reader_resyncs_two_bytes : Resyncs [⟨[0, 0], .sealed 1 2 3 [65, 66, 67] (by decide), rfl⟩] :=
  reader_resyncs _
    (fun g hg k hk hk2 => by
      obtain rfl := List.mem_singleton.1 hg
      have hk' : k < 2 := hk
      obtain rfl : k = 0 := by omega
      decide)
    ⟨fun k hk _ => by
      have hk' : k < 2 := hk
      simp only [InsideBuffer, bufferSize, sizeofPacket]
      omega, trivial⟩

/-! ## Garbage at the end of a buffer -/

/-- **A garbage header in two buffers** makes the parser skip the first two bytes of the second, with `pr_InBuf` left
at the first. -/
theorem turn_straddle (al : Alloc) {s : Reader} {S : Mem} {n P base : Nat} {a b : IbPtr} {r : List IbPtr}
    (v : View s S n P (some a) base (a :: b :: r)) (hn : P + sizeofPacket ≤ n)
    (hoff : bufferSize < (s.ibs a).offset + sizeofPacket) (hid : S.long P ≠ packetId) :
    turn al (s, some a) = some (.again (s.advance b 2, some b)) := by
  obtain ⟨h₁, h₂, h₃, -, h₄⟩ := v.second
  have hP := v.pos_eq
  have hle := v.offset_le
  simp only [Filled, bufferSize, sizeofPacket] at *
  rw [turn_garbage v hn hid, if_pos (by simp only [sizeofPacket]; omega), v.next_eq, List.head?_cons,
    badData_again (by simp only [Option.getD_some, bufferSize]; omega), Option.getD_some, skip_of_lt (by omega)]

/-- A payload that ends its packet at 4084. -/
def longPayload : List UInt8 := List.replicate 4070 0

theorem length_longPayload : longPayload.length = 4070 := List.length_replicate

/-- A packet of 4084 bytes. -/
def longPacket : WirePacket := .sealed 1 1 1 longPayload (by rw [length_longPayload]; decide)

/-- A packet of 14 bytes. -/
def shortPacket : WirePacket := .sealed 1 1 2 [] (by decide)

theorem size_longPacket : longPacket.size = 4084 := by
  rw [longPacket, WirePacket.size_sealed, length_longPayload]

theorem size_shortPacket : shortPacket.size = 14 := by
  rw [shortPacket, WirePacket.size_sealed]
  rfl

/-- A packet that ends at 4084, two bytes of garbage, and a packet that starts in one buffer and ends in the next. -/
def lateGarbage : List Segment := [⟨[], longPacket, rfl⟩, ⟨[0, 0], shortPacket, rfl⟩]

theorem quiet_lateGarbage : ∀ g ∈ lateGarbage, g.Quiet := by
  intro g hg k hk hk2
  simp only [lateGarbage, List.mem_cons, List.not_mem_nil, or_false] at hg
  rcases hg with rfl | rfl
  · exact absurd hk (Nat.not_lt_zero k)
  · have hk' : k < 2 := hk
    obtain rfl : k = 0 := by omega
    decide

theorem streamOf_lateGarbage : streamOf lateGarbage = longPacket.bytes ++ ([0, 0] ++ shortPacket.bytes) := by
  rw [lateGarbage, streamOf_cons, streamOf_cons, streamOf_nil, List.append_nil, Segment.bytes, Segment.bytes,
    List.nil_append]

theorem length_lateGarbage : (streamOf lateGarbage).length = 4100 := by
  rw [streamOf_lateGarbage, List.length_append, List.length_append, WirePacket.length_bytes, WirePacket.length_bytes,
    size_longPacket, size_shortPacket]
  rfl

theorem completed_lateGarbage : (completed Segment.size lateGarbage 4100).length = 2 := by
  have h₁ : (⟨[], longPacket, rfl⟩ : Segment).size = 4084 := by
    rw [Segment.size, size_longPacket]
    rfl
  have h₂ : (⟨[0, 0], shortPacket, rfl⟩ : Segment).size = 16 := by
    rw [Segment.size, size_shortPacket]
    rfl
  rw [lateGarbage, completed_cons_of_le (by omega), completed_cons_of_le (by omega)]
  rfl

section LateGarbage

variable {al : Alloc} {S : Mem} {s : Reader} {l : List IbPtr} {b : BufPtr} {bs : List UInt8} {fuel : Nat}

/-- The first read fills a buffer: the long packet is queued, and the parser waits at the garbage. -/
theorem process_first (fuel : Nat) (v : View s S 0 0 s.inBuf 0 l) (ho : s.Owned l) (hal : al.Succeeds) (hb : b ∈ s.bufUse)
    (hoff : (s.bufs b).offset = 0) (hnew : ∀ a ∈ l, (s.ibs a).buf ≠ b) (hS : S.Holds 0 longPacket.bytes)
    (hbs : S.Holds 0 bs) (hlen : bs.length = 4096) (hf : l.length + 3 ≤ fuel) :
    ∃ t l' base, (s.fill b bs).processBuffer fuel al b = some t ∧ t.queue.length = s.queue.length + 1 ∧
      View t S 4096 4084 t.inBuf base l' ∧ t.Owned l' ∧ (t.bufs b).offset = 4096 ∧ b ∈ t.bufUse := by
  have hne : bs ≠ [] := by
    rintro rfl
    cases hlen
  have hlast : 0 < 0 → ∃ a, l.getLast? = some a ∧ (s.ibs a).buf = b := fun h => absurd h (lt_irrefl 0)
  obtain ⟨t, l₁, happ, hbufs, huse, hq, v₁, ho₁, c, hc, -⟩ := view_arrive v ho hlast hal.inBuffer hb hoff
    (fun h => absurd rfl h) (fun _ => hnew) hbs hne (by rw [hlen]; decide)
  rw [hlen, Nat.zero_add] at v₁
  obtain ⟨a, r, rfl, hi⟩ : ∃ a r, l₁ = a :: r ∧ t.inBuf = some a := by
    cases l₁ with
    | nil => cases hc
    | cons a r => exact ⟨a, r, rfl, v₁.chain.1⟩
  rw [hi] at v₁
  obtain ⟨h, d, hf', sp, -, hsize, ht⟩ := turn_packet v₁ hS al (by rw [size_longPacket]; decide) rfl
  rw [if_pos (hal.inPacket t)] at ht
  obtain ⟨base, l', hsuf, hpars⟩ := parsing_accept v₁ hf' sp
  rw [hsize, size_longPacket, Nat.zero_add] at hpars
  have hs := accept_sameLayout t a h d
  have hq' := accept_queue t a h d
  generalize t.accept a h d = u at *
  refine ⟨u.1, l', base, ?_, ?_, hpars.1, ho₁.congr hs hsuf, ?_, ?_⟩
  · obtain ⟨f, rfl⟩ : ∃ f, fuel = f + 2 := ⟨fuel - 2, by omega⟩
    simp only [processBuffer, happ _ (show l.length < f + 2 by omega), Option.bind_some, if_true, hi]
    rw [Loop.run_again ht, Loop.run_done (hpars.wait (by decide))]
  · rw [hq', hq, List.length_append, List.length_singleton]
  · rw [hs.bufs, hbufs, bufs_fill_self, hoff, hlen]
  · rw [hs.bufUse, huse]
    exact hb

/-- The server has read the first buffer into a new chain, and goes on in the next. -/
theorem receive_first (hal : al.Succeeds) (ibs : IbPtr → InBuffer) (bufs : BufPtr → Buffer)
    (hS : S.Holds 0 longPacket.bytes) (hbs : S.Holds 0 bs) (hlen : bs.length = 4096) : ∃ t c l base,
      (∀ fuel ≥ 3, step fuel (start al ibs bufs) (.receive al bs) = some ⟨t, some c, []⟩) ∧ t.queue.length = 1 ∧
        View t S 4096 4084 t.inBuf base l ∧ t.Owned l ∧ c ∈ t.bufUse ∧ (t.bufs c).offset = 0 ∧
        ∀ a ∈ l, (t.ibs a).buf ≠ c := by
  obtain ⟨b, hstart⟩ := start_eq hal ibs bufs
  have hoff : (((createPacketReader ibs bufs).allocateBuffer b).bufs b).offset = 0 := by rw [bufs_allocateBuffer_self]
  obtain ⟨t, l, base, hp, hq, v, ho, hoff', -⟩ := process_first 3 view_start owned_start hal List.mem_cons_self hoff
    (fun a ha => (by cases ha)) hS hbs hlen (Nat.le_refl 3)
  obtain ⟨c, hc, hstep⟩ := receive_full [] hal (by rintro rfl; cases hlen) (by rw [hoff, hlen]) hp hoff'
  refine ⟨t.allocateBuffer c, c, l, base, fun fuel hf => by rw [hstart, hstep fuel hf], hq, v.allocateBuffer ho hc,
    ho.allocateBuffer, List.mem_cons_self, by rw [bufs_allocateBuffer_self], fun a ha he => hc (he ▸ ho.bufUse a ha)⟩

/-- The second read: the garbage header is in two buffers, and the parser goes to the third byte of the new one. -/
theorem arrive_straddle {base : Nat} (v : View s S 4096 4084 s.inBuf base l) (ho : s.Owned l) (hal : al.Succeeds)
    (hb : b ∈ s.bufUse) (hoff : (s.bufs b).offset = 0) (hnew : ∀ a ∈ l, (s.ibs a).buf ≠ b)
    (hS : S.long 4084 ≠ packetId) (hbs : S.Holds 4096 bs) (hlen : 2 ≤ bs.length ∧ bs.length ≤ bufferSize) :
    ∃ t a c r, (∀ fuel, l.length < fuel → (s.fill b bs).appendBuffer fuel al b = some (t, true)) ∧
      t.bufs = (s.fill b bs).bufs ∧ t.queue = s.queue ∧ t.inBuf = some a ∧ t.Owned (a :: c :: r) ∧ a ∉ c :: r ∧
      turn al (t, some a) = some (.again (t.advance c 2, some c)) ∧
      View (t.advance c 2) S (4096 + bs.length) 4098 (some c) 4096 (c :: r) := by
  have hlast : ∃ a, l.getLast? = some a ∧ (s.ibs a).buf = (s.ibs ((l.getLast?).getD 0)).buf := by
    cases hl : l.getLast? with
    | none =>
      obtain rfl := List.getLast?_eq_none_iff.1 hl
      have h₁ := v.laid
      have h₂ := v.pos
      simp only [Laid, headOffset, bufferSize] at h₁ h₂
      omega
    | some a => exact ⟨a, rfl, rfl⟩
  obtain ⟨t, l₁, happ, hbufs, -, hq, v₁, ho₁, c, hc, -⟩ := view_arrive v ho (fun _ => hlast) hal.inBuffer hb hoff
    (fun h => absurd rfl h) (fun _ => hnew) hbs (List.ne_nil_of_length_pos (by omega)) (by
      show 0 + _ ≤ _
      omega)
  have hbase : base = 0 := by
    have h₁ := v₁.aligned
    have h₂ := v₁.pos
    simp only [bufferSize] at h₁
    omega
  subst hbase
  obtain ⟨a, a₂, r, rfl, hi⟩ : ∃ a a₂ r, l₁ = a :: a₂ :: r ∧ t.inBuf = some a := by
    have h := v₁.laid
    rcases l₁ with - | ⟨a, - | ⟨a₂, r⟩⟩
    · simp only [Laid, bufferSize] at h
      omega
    · have := h.2.2.2.1
      simp only [bufferSize] at this
      omega
    · exact ⟨a, a₂, r, rfl, v₁.chain.1⟩
  rw [hi] at v₁
  have hP := v₁.pos_eq
  have ht := turn_straddle al v₁ (by simp only [sizeofPacket]; omega) (by simp only [bufferSize, sizeofPacket]; omega) hS
  have v₂ := v₁.behind
  rw [v₁.next_eq, List.head?_cons] at v₂
  have hoff₂ : ((t.advance a₂ 2).ibs a₂).offset = 2 := by
    rw [offset_advance, if_pos rfl, v₁.second.2.2.2.2]
  refine ⟨t, a, a₂, r, happ, hbufs, hq, hi, ho₁, (List.nodup_cons.1 v₁.chain.nodup).1, ht,
    v₂.move (.advance ..) (by rw [headOffset, hoff₂]; rfl) ?_ ?_⟩
  · rintro x ⟨⟩
    rw [hoff₂]
    have := v₁.second.2.2.1
    simp only [Filled, bufferSize] at this
    omega
  · intro x hx
    have hne : x ≠ a₂ := fun he => (List.nodup_cons.1 v₂.chain.nodup).1 (he ▸ hx)
    rw [offset_advance, if_neg hne]

/-- The parser goes over the start of the packet. -/
theorem process_second {base : Nat} (fuel : Nat) (v : View s S 4096 4084 s.inBuf base l) (ho : s.Owned l) (hal : al.Succeeds)
    (hb : b ∈ s.bufUse) (hoff : (s.bufs b).offset = 0) (hnew : ∀ a ∈ l, (s.ibs a).buf ≠ b)
    (hS : S.long 4084 ≠ packetId) (hbs : S.Holds 4096 bs) (hlen : bs.length = 4) (hf : l.length + 3 ≤ fuel) :
    ∃ t, (s.fill b bs).processBuffer fuel al b = some t ∧ t.queue = s.queue ∧ (t.bufs b).offset = 4 := by
  obtain ⟨t, a, c, r, happ, hbufs, hq, hi, -, -, ht, v'⟩ :=
    arrive_straddle v ho hal hb hoff hnew hS hbs (by rw [hlen]; decide)
  rw [hlen] at v'
  refine ⟨t.advance c 2, ?_, hq, ?_⟩
  · obtain ⟨f, rfl⟩ : ∃ f, fuel = f + 2 := ⟨fuel - 2, by omega⟩
    simp only [processBuffer, happ _ (show l.length < f + 2 by omega), Option.bind_some, if_true, hi]
    rw [Loop.run_again ht, Loop.run_done (turn_wait v' (by decide))]
  · show (t.bufs b).offset = 4
    rw [hbufs, bufs_fill_self, hoff, hlen]

/-- Two reads, after which only one packet is queued. -/
theorem run_lateGarbage {bs₁ bs₂ : List UInt8} (hal : al.Succeeds) (ibs : IbPtr → InBuffer) (bufs : BufPtr → Buffer)
    (hS : S.Holds 0 longPacket.bytes) (hid : S.long 4084 ≠ packetId) (h₁ : S.Holds 0 bs₁) (h₂ : S.Holds 4096 bs₂)
    (hlen₁ : bs₁.length = 4096) (hlen₂ : bs₂.length = 4) : ∃ N, ∀ fuel ≥ N, ∃ x,
      runs (step fuel) (start al ibs bufs) [.receive al bs₁, .receive al bs₂] = some x ∧ x.unreleased.length = 1 := by
  obtain ⟨t, c, l, base, hstep₁, hq, v, ho, hc, hoff, hnew⟩ := receive_first hal ibs bufs hS h₁ hlen₁
  obtain ⟨u, hp, hq', hoff'⟩ := process_second (l.length + 3) v ho hal hc hoff hnew hid h₂ hlen₂ (Nat.le_refl _)
  refine ⟨l.length + 3, fun fuel hf => ⟨⟨u, some c, []⟩, ?_, ?_⟩⟩
  · have hstep₂ := receive_room [] (List.ne_nil_of_length_pos (by omega)) (by rw [hoff, hlen₂]; decide) hp
      (by rw [hoff']; decide) fuel hf
    rw [runs_cons (hstep₁ fuel (by omega)), runs_cons hstep₂, runs_nil]
  · show ([] ++ u.queue).length = 1
    rw [List.nil_append, hq', hq]

end LateGarbage

/-- **Garbage at the end of a buffer loses the packet behind it**: two reads, of 4096 bytes and of 4. -/
theorem late_garbage_loses_packet : ¬∀ segs : List Segment, (∀ g ∈ segs, g.Quiet) → Resyncs segs := by
  intro hall
  have hal := Alloc.unbounded_succeeds
  have hlen := length_lateGarbage
  have hS := Mem.holds_ofList (streamOf lateGarbage)
  have hsplit : (streamOf lateGarbage).take 4096 ++ (streamOf lateGarbage).drop 4096 = streamOf lateGarbage :=
    List.take_append_drop ..
  have hlen₁ : ((streamOf lateGarbage).take 4096).length = 4096 := by
    rw [List.length_take, hlen]
    decide
  have hlen₂ : ((streamOf lateGarbage).drop 4096).length = 4 := by rw [List.length_drop, hlen]
  have hreads := hS
  rw [← hsplit, Mem.holds_append, hlen₁, Nat.zero_add, hsplit] at hreads
  rw [streamOf_lateGarbage, Mem.holds_append, WirePacket.length_bytes, size_longPacket, Nat.zero_add,
    ← streamOf_lateGarbage] at hS
  have hid : (Mem.ofList (streamOf lateGarbage)).long 4084 ≠ packetId := by
    have hlong : (Mem.ofList ([0, 0] ++ shortPacket.bytes)).long 0 = (Mem.ofList (streamOf lateGarbage)).long 4084 :=
      Mem.long_congr fun k hk => by
        rw [Nat.zero_add, hS.2.ofList]
        rw [List.length_append, WirePacket.length_bytes, size_shortPacket]
        simp only [List.length_cons, List.length_nil]
        omega
    exact hlong ▸ quiet_lateGarbage ⟨[0, 0], shortPacket, rfl⟩ (by simp [lateGarbage]) 0 (by decide) rfl
  obtain ⟨N, x, hx, hv⟩ := hall lateGarbage quiet_lateGarbage .unbounded (fun _ => default) (fun _ => default)
    [.receive .unbounded ((streamOf lateGarbage).take 4096), .receive .unbounded ((streamOf lateGarbage).drop 4096)]
    hal (by simp [Event.Allowed, hal]) ⟨by rw [hlen₁]; decide, by rw [hlen₁, hlen₂]; decide, trivial⟩
    (by simp only [received, List.append_nil, hsplit, List.prefix_rfl])
  obtain ⟨N', hN'⟩ := run_lateGarbage hal (fun _ => default) (fun _ => default) hS.1 hid hreads.1 hreads.2 hlen₁ hlen₂
  obtain ⟨y, hy, hy1⟩ := hN' (max N N') (le_max_right _ _)
  cases (hx (max N N') (le_max_left _ _)).symm.trans hy
  have hl := congrArg List.length hv
  simp only [received, List.append_nil, hsplit, hlen, List.length_map, hy1, completed_lateGarbage] at hl
  omega

end AmiPiBorg.Rx
