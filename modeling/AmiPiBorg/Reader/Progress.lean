import AmiPiBorg.Lib.Frames
import AmiPiBorg.Reader.Stream

/-!
# Progress of the parser

The stream is a list of segments, each a well-formed packet behind a run of garbage. `Progress` says what the parser
has done with it when it stands at `P`, with the segments `segs` before it: what was queued, followed by the packets
that `segs` completes, are the packets that the whole stream completes. Every turn keeps this and goes on in the
stream, or the packet at `P` is not complete yet (`progress_turn`); so `APB_ProcessBuffer` ends, and then every
complete packet is queued (`progress_loop`).

The garbage must be `Quiet`, that is without `PACKET_ID`, and `Clear` of the places where the parser steps wrong.
-/

set_option autoImplicit false

namespace AmiPiBorg

open ProgLib

/-- A well-formed packet behind a run of garbage of even length. -/
structure Segment where
  garbage : List UInt8
  packet : WirePacket
  even : garbage.length % 2 = 0

namespace Segment

def bytes (g : Segment) : List UInt8 := g.garbage ++ g.packet.bytes

def size (g : Segment) : Nat := g.garbage.length + g.packet.size

/-- What should arrive of the segment. -/
def incoming (g : Segment) : Incoming := g.packet.incoming

/-- No even position of the garbage carries `PACKET_ID`. -/
def Quiet (g : Segment) : Prop :=
  ∀ k < g.garbage.length, k % 2 = 0 → (Mem.ofList g.bytes).long k ≠ packetId

@[simp] theorem length_bytes (g : Segment) : g.bytes.length = g.size := by simp [bytes, size]

/-- The same segment behind the first two bytes of its garbage. -/
structure Behind (g g' : Segment) (x y : UInt8) : Prop where
  garbage : g.garbage = x :: y :: g'.garbage
  packet : g'.packet = g.packet

theorem exists_behind {g : Segment} (hg : g.garbage ≠ []) : ∃ g' x y, Behind g g' x y := by
  obtain ⟨bs, p, he⟩ := g
  match bs with
  | [] => exact absurd rfl hg
  | [x] => simp at he
  | x :: y :: bs => exact ⟨⟨bs, p, by simp at he; omega⟩, x, y, rfl, rfl⟩

section Behind

variable {g g' : Segment} {x y : UInt8} (hb : Behind g g' x y)
include hb

theorem Behind.bytes : g.bytes = [x, y] ++ g'.bytes := by
  simp only [Segment.bytes, hb.garbage, hb.packet]
  rfl

theorem Behind.length : g.garbage.length = 2 + g'.garbage.length := by
  rw [hb.garbage]
  simp only [List.length_cons]
  omega

theorem Behind.size : g.size = 2 + g'.size := by
  have := hb.length
  simp only [Segment.size, hb.packet]
  omega

theorem Behind.quiet (hq : g.Quiet) : g'.Quiet := by
  intro k hk hk2
  have hl := hb.length
  have hlong : (Mem.ofList g.bytes).long (2 + k) = (Mem.ofList g'.bytes).long k := Mem.long_congr fun i _ => by
    simp only [Mem.ofList, hb.bytes, List.getD_eq_getElem?_getD]
    rw [List.getElem?_append_right (by simp; omega), show 2 + k + i - [x, y].length = k + i by simp; omega]
  exact hlong ▸ hq (2 + k) (by omega) (by omega)

theorem Behind.completed {segs : List Segment} {n : Nat} (hn : 2 ≤ n) :
    (completed Segment.size (g :: segs) n).map incoming = (completed Segment.size (g' :: segs) (n - 2)).map incoming := by
  have hs := hb.size
  by_cases hc : g.size ≤ n
  · rw [completed_cons_of_le hc, completed_cons_of_le (by omega), List.map_cons, List.map_cons, hs, Nat.sub_add_eq]
    simp only [incoming, hb.packet]
  · rw [completed_cons_of_lt (by omega), completed_cons_of_lt (by omega)]

end Behind

end Segment

/-- The bytes of a stream of segments. -/
def streamOf (segs : List Segment) : List UInt8 := segs.flatMap Segment.bytes

@[simp] theorem streamOf_nil : streamOf [] = [] := rfl

@[simp] theorem streamOf_cons (g : Segment) (segs : List Segment) : streamOf (g :: segs) = g.bytes ++ streamOf segs :=
  List.flatMap_cons

/-- A header at position `pos` lies in one buffer, and does not start a buffer other than the first. -/
def InsideBuffer (pos : Nat) : Prop :=
  pos % bufferSize + sizeofPacket ≤ bufferSize ∧ (pos % bufferSize ≠ 0 ∨ pos = 0)

/-- All headers that the parser looks for in the garbage are inside a buffer. -/
def Clear : Nat → List Segment → Prop
  | _, [] => True
  | pos, g :: segs => (∀ k < g.garbage.length, k % 2 = 0 → InsideBuffer (pos + k)) ∧ Clear (pos + g.size) segs

theorem Clear.behind {g g' : Segment} {x y : UInt8} {segs : List Segment} {pos : Nat} (hb : g.Behind g' x y)
    (hc : Clear pos (g :: segs)) : Clear (pos + 2) (g' :: segs) := by
  refine ⟨fun k hk hk2 => ?_, ?_⟩
  · have := hc.1 (2 + k) (by have := hb.length; omega) (by omega)
    rwa [← Nat.add_assoc] at this
  · have := hc.2
    rwa [hb.size, ← Nat.add_assoc] at this

theorem completed_eq_nil {n : Nat} (hn : n < sizeofPacket) : ∀ segs : List Segment,
    completed Segment.size segs n = []
  | [] => rfl
  | g :: _ => completed_cons_of_lt (by
      have := g.packet.le_size
      simp only [Segment.size, sizeofPacket] at *
      omega)

namespace Reader

/-- The data of the packet lies in received bytes of buffers in use. -/
def Stored (s : Reader) (data : Option Addr) (len : Nat) : Prop :=
  data = none ∧ len = 0 ∨ ∃ b off, data = some (b, off) ∧ b ∈ s.bufUse ∧ off + len ≤ (s.bufs b).offset

/-- The buffers of the chain are in use, and are different buffers. -/
structure Owned (s : Reader) (l : List IbPtr) : Prop where
  ibUse : ∀ a ∈ l, a ∈ s.ibUse
  bufUse : ∀ a ∈ l, (s.ibs a).buf ∈ s.bufUse
  nodup : (l.map fun a => (s.ibs a).buf).Nodup

/-- What the parser has done with the stream `all` when `n` bytes have arrived, the last of them in the buffer `rb`,
and it stands at `P` before `segs`. -/
structure Progress (all : List Segment) (held : List InPacket) (S : Mem) (rb : BufPtr) (n : Nat) (s : Reader)
    (ib1 : Option IbPtr) (P : Nat) (segs : List Segment) (base : Nat) (l : List IbPtr) : Prop where
  parsing : Parsing s S n P base l ib1
  owned : Owned s l
  last : 0 < n → ∃ a, l.getLast? = some a ∧ (s.ibs a).buf = rb
  even : P % 2 = 0
  ahead : S.Holds P (streamOf segs)
  total : P + (streamOf segs).length = (streamOf all).length
  within : n ≤ (streamOf all).length
  quiet : ∀ g ∈ segs, g.Quiet
  clear : Clear P segs
  stored : ∀ ip ∈ held ++ s.queue, s.Stored ip.data1 ip.data1Length ∧ s.Stored ip.data2 ip.data2Length
  queued : ∀ m, P ≤ m → (completed Segment.size all m).map Segment.incoming =
    (held ++ s.queue).map s.view ++ (completed Segment.size segs (m - P)).map Segment.incoming

variable {al : Alloc} {s s' : Reader} {all : List Segment} {held : List InPacket} {S : Mem} {n P base : Nat}
  {ib1 : Option IbPtr} {segs : List Segment} {l : List IbPtr} {a : IbPtr} {d : Located} {rb : BufPtr}

theorem Owned.congr {l' : List IbPtr} (ho : s.Owned l) (hs : SameLayout s s') (hl : l' <:+ l) : s'.Owned l' := by
  refine ⟨fun a ha => ?_, fun a ha => ?_, ?_⟩
  · rw [hs.ibUse]
    exact ho.ibUse a (hl.subset ha)
  · rw [hs.bufUse, hs.buf]
    exact ho.bufUse a (hl.subset ha)
  · simp only [hs.buf]
    exact ho.nodup.sublist (hl.sublist.map _)

theorem Stored.congr {data : Option Addr} {len : Nat} (h : s.Stored data len) (hs : SameLayout s s') :
    s'.Stored data len := by
  simpa only [Stored, hs.bufs, hs.bufUse] using h

theorem view_congr (h : s'.mem = s.mem) : s'.view = s.view :=
  funext fun ip => by simp only [view, inPacketToBuffer, h]

/-- A range that was received into buffers of the chain is stored. -/
theorem Received.stored {ib2 : Option IbPtr} {data : Option Addr} {len : Nat} (hr : s.Received a ib2 data len)
    (ha : (s.ibs a).buf ∈ s.bufUse) (h2 : ∀ c, ib2 = some c → (s.ibs c).buf ∈ s.bufUse) : s.Stored data len := by
  obtain h | ⟨ib, off, hib, hd, hle⟩ := hr
  · exact .inl h
  · refine .inr ⟨_, off, hd, ?_, hle⟩
    rcases hib with rfl | hib
    · exact ha
    · exact h2 ib hib

/-- The parser is not ahead of the bytes. -/
theorem Progress.le (pr : Progress all held S rb n s ib1 P segs base l) : P ≤ n := by
  obtain ⟨v, -⟩ := pr.parsing
  have h₁ := v.pos
  have h₂ := v.aligned
  cases l with
  | nil =>
    have h₃ := v.laid
    have h₄ : ¬0 < n := fun h => by
      obtain ⟨a, ha, -⟩ := pr.last h
      cases ha
    simp only [headOffset, Laid, bufferSize] at *
    omega
  | cons a l =>
    obtain ⟨h₃, h₄, -⟩ := v.laid
    have h₅ := v.head_le a rfl
    simp only [headOffset, Filled, bufferSize] at *
    omega

/-- What was queued, once nothing complete is left. -/
theorem Progress.queued_all (pr : Progress all held S rb n s ib1 P segs base l)
    (hc : completed Segment.size segs (n - P) = []) :
    (held ++ s.queue).map s.view = (completed Segment.size all n).map Segment.incoming := by
  rw [pr.queued n pr.le, hc, List.map_nil, List.append_nil]

/-! ## One turn -/

/-- At a position inside a buffer the parser is in the head of the chain, with a whole header before it. -/
theorem Parsing.inside (hp : Parsing s S n P base l ib1) (hin : InsideBuffer P) (hn : P + sizeofPacket ≤ n) :
    ∃ a l', l = a :: l' ∧ ib1 = some a ∧ View s S n P (some a) base (a :: l') ∧
      (s.ibs a).offset + sizeofPacket ≤ s.bytes a ∧ s.bytes a ≤ bufferSize := by
  obtain ⟨v, hib⟩ := hp
  cases hi : s.inBuf with
  | none =>
    rw [hi] at v
    have := v.le_of_none
    simp only [sizeofPacket] at hn
    omega
  | some a =>
    rw [hi] at v
    obtain ⟨l', rfl, -⟩ := Chain.of_some v.chain
    have h₁ := v.pos_eq
    have h₂ := v.offset_le
    have h₃ := v.filled
    have h₄ := v.aligned
    simp only [InsideBuffer, Filled, sizeofPacket, bufferSize] at hin h₃ h₄ hn ⊢
    refine ⟨a, l', rfl, ?_, v, by omega, by omega⟩
    rcases hib with h | ⟨c, hc, ho, -⟩
    · rw [h, hi]
    · cases hc.symm.trans hi
      simp only [bufferSize] at ho
      omega

/-- Two bytes of garbage are given up. -/
theorem progress_garbage (al : Alloc) {g : Segment} (pr : Progress all held S rb n s ib1 P (g :: segs) base l) (hg : g.garbage ≠ [])
    (hn : P + sizeofPacket ≤ n) : ∃ s' g', turn al (s, ib1) = some (.again (s', ib1)) ∧ SameLayout s s' ∧
      Progress all held S rb n s' ib1 (P + 2) (g' :: segs) base l := by
  have hpos : 0 < g.garbage.length := List.length_pos_of_ne_nil hg
  have hahead := pr.ahead
  rw [streamOf_cons, Mem.holds_append] at hahead
  have hid : S.long P ≠ packetId := by
    have hlong : (Mem.ofList g.bytes).long 0 = S.long P := Mem.long_congr fun k hk => by
      have := g.packet.le_size
      rw [Nat.zero_add, hahead.1.ofList (by rw [Segment.length_bytes, Segment.size]; omega)]
    exact hlong ▸ pr.quiet g List.mem_cons_self 0 hpos rfl
  obtain ⟨a, l', rfl, rfl, v, hoff, hbytes⟩ := pr.parsing.inside (pr.clear.1 0 hpos rfl) hn
  have hturn : turn al (s, some a) = some (.again (s.advance a 2, some a)) := by
    simp only [sizeofPacket] at hoff
    rw [turn_garbage v hn hid, if_neg (by simp only [sizeofPacket]; omega), badData_again hbytes,
      Option.getD_none, skip_of_lt (by omega)]
  have hs : SameLayout s (s.advance a 2) := .advance ..
  obtain ⟨g', x, y, hb⟩ := Segment.exists_behind hg
  have hsize := hb.size
  refine ⟨_, g', hturn, hs, ⟨parsing_advance pr.parsing.1 (by simp only [sizeofPacket] at hoff; omega),
    pr.owned.congr hs (List.suffix_refl _), fun hpos => ?_, by have := pr.even; omega, ?_, ?_, pr.within, ?_,
    pr.clear.behind hb, ?_, ?_⟩⟩
  · obtain ⟨c, hc, hcb⟩ := pr.last hpos
    exact ⟨c, hc, (hs.buf c).trans hcb⟩
  · rw [hb.bytes, Mem.holds_append, List.length_append, ← Nat.add_assoc] at hahead
    exact (streamOf_cons ..).symm ▸ Mem.holds_append.2 ⟨hahead.1.2, hahead.2⟩
  · have := pr.total
    rw [streamOf_cons, List.length_append, Segment.length_bytes] at this ⊢
    omega
  · intro g'' hg''
    rcases List.mem_cons.1 hg'' with rfl | hg''
    · exact hb.quiet (pr.quiet g List.mem_cons_self)
    · exact pr.quiet g'' (List.mem_cons_of_mem _ hg'')
  · exact fun ip hip => ⟨(pr.stored ip hip).1.congr hs, (pr.stored ip hip).2.congr hs⟩
  · intro m hm
    rw [pr.queued m (by omega), view_congr hs.mem_eq, hb.completed (by omega), Nat.sub_add_eq]
    rfl

/-- A complete packet is queued. -/
theorem progress_packet {g : Segment} {base₁ : Nat} {l₁ : List IbPtr}
    (pr : Progress all held S rb n s (some a) P (g :: segs) base l) (hg : g.garbage = [])
    (v : View s S n P (some a) base₁ (a :: l₁)) (hsuf : a :: l₁ <:+ l) (hn : P + g.packet.size ≤ n)
    (hal : al.inPacket s = true) : ∃ s' ib1' base' l', turn al (s, some a) = some (.again (s', ib1')) ∧ SameLayout s s' ∧
      Progress all held S rb n s' ib1' (P + g.packet.size) segs base' l' := by
  have hgb : g.bytes = g.packet.bytes := by rw [Segment.bytes, hg, List.nil_append]
  have hgs : g.size = g.packet.size := by rw [Segment.size, hg, List.length_nil, Nat.zero_add]
  have hahead := pr.ahead
  rw [streamOf_cons, Mem.holds_append, hgb, WirePacket.length_bytes] at hahead
  obtain ⟨h, d, hf, sp, hh, hsize, ht⟩ := turn_packet v hahead.1 al hn pr.even
  rw [if_pos hal] at ht
  obtain ⟨base', l', hl', hpars⟩ := parsing_accept v hf sp
  rw [hsize] at hpars
  have hs := accept_sameLayout s a h d
  have hown : ∀ b ∈ a :: l₁, (s.ibs b).buf ∈ s.bufUse := fun b hb => pr.owned.bufUse b (hsuf.subset hb)
  have hown2 : ∀ c, d.ib2 = some c → (s.ibs c).buf ∈ s.bufUse := fun c hc =>
    hown c (List.mem_cons_of_mem a (List.mem_of_mem_head? (sp.two c hc).1))
  have hq := accept_queue s a h d
  have hne : l' ≠ [] := by
    rintro rfl
    cases (accept_inBuf s a h d).symm.trans (Chain.nil_iff.1 hpars.1.chain)
  generalize s.accept a h d = r at *
  refine ⟨r.1, r.2, base', l', ht, hs, ⟨hpars, pr.owned.congr hs (hl'.trans hsuf), fun hpos => ?_, ?_, hahead.2, ?_,
    pr.within, ?_, ?_, ?_, ?_⟩⟩
  · obtain ⟨c, hc, hcb⟩ := pr.last hpos
    obtain ⟨t, rfl⟩ := hl'.trans hsuf
    rw [List.getLast?_append_of_ne_nil _ hne] at hc
    exact ⟨c, hc, (hs.buf c).trans hcb⟩
  · have := pr.even
    have := g.packet.size_even
    omega
  · have := pr.total
    rw [streamOf_cons, List.length_append, Segment.length_bytes, hgs] at this
    omega
  · exact fun g' hg' => pr.quiet g' (List.mem_cons_of_mem _ hg')
  · have := pr.clear.2
    rwa [hgs] at this
  · intro ip hip
    rw [hq, ← List.append_assoc, List.mem_append, List.mem_singleton] at hip
    rcases hip with hip | rfl
    · exact ⟨(pr.stored ip hip).1.congr hs, (pr.stored ip hip).2.congr hs⟩
    · exact ⟨(hf.data1.stored (hown a List.mem_cons_self) hown2).congr hs,
        (hf.data2.stored (hown a List.mem_cons_self) hown2).congr hs⟩
  · intro m hm
    have hc : (completed Segment.size (g :: segs) (m - P)).map Segment.incoming =
        g.packet.incoming :: (completed Segment.size segs (m - (P + g.packet.size))).map Segment.incoming := by
      rw [completed_cons_of_le (by omega), hgs, List.map_cons, Nat.sub_add_eq]
      rfl
    rw [pr.queued m (by omega), hc, view_congr hs.mem_eq, hq]
    simp only [List.map_append, List.map_cons, List.map_nil, view_newPacket hahead.1 sp hh, List.append_assoc,
      List.cons_append, List.nil_append]

/-- **A turn** goes on in the stream, or nothing that has arrived is left to queue. -/
theorem progress_turn (pr : Progress all held S rb n s ib1 P segs base l) (hal : ∀ s, al.inPacket s = true) :
    turn al (s, ib1) = some (.done s) ∧ completed Segment.size segs (n - P) = [] ∨
      ∃ s' ib1' P' segs' base' l', turn al (s, ib1) = some (.again (s', ib1')) ∧ P < P' ∧ P' ≤ n ∧
        SameLayout s s' ∧ Progress all held S rb n s' ib1' P' segs' base' l' := by
  by_cases hn : P + sizeofPacket ≤ n
  · obtain ⟨base₁, l₁, v, hsuf⟩ := pr.parsing.view
    cases ib1 with
    | none =>
      have := v.le_of_none
      simp only [sizeofPacket] at hn
      omega
    | some a =>
      obtain ⟨l₂, rfl, -⟩ := Chain.of_some v.chain
      cases segs with
      | nil =>
        have := pr.within
        have := pr.total
        simp only [streamOf_nil, List.length_nil, sizeofPacket] at this hn
        omega
      | cons g segs =>
        by_cases hg : g.garbage = []
        · have hge := g.packet.le_size
          by_cases hc : P + g.packet.size ≤ n
          · obtain ⟨s', ib1', base', l', ht, hs, pr'⟩ := progress_packet pr hg v hsuf hc (hal s)
            exact .inr ⟨s', ib1', _, segs, base', l', ht, by omega, hc, hs, pr'⟩
          · have hahead := pr.ahead
            rw [streamOf_cons, Mem.holds_append, Segment.bytes, hg, List.nil_append] at hahead
            refine .inl ⟨turn_packet_wait v hahead.1 (by omega), completed_cons_of_lt ?_⟩
            rw [Segment.size, hg, List.length_nil]
            omega
        · obtain ⟨s', g', ht, hs, pr'⟩ := progress_garbage al pr hg hn
          exact .inr ⟨s', some a, P + 2, g' :: segs, base, l, ht, by omega,
            by simp only [sizeofPacket] at hn; omega, hs, pr'⟩
  · exact .inl ⟨pr.parsing.wait (Nat.not_le.1 hn), completed_eq_nil (by simp only [sizeofPacket] at *; omega) _⟩

/-- **The loop** ends, and has queued all that has arrived completely. -/
theorem progress_loop (pr : Progress all held S rb n s ib1 P segs base l) (hal : ∀ s, al.inPacket s = true) :
    ∃ s', Loop.run (turn al) (n - P + 1) (s, ib1) = some s' ∧ SameLayout s s' ∧ ∃ P' segs' base' l',
      Progress all held S rb n s' s'.inBuf P' segs' base' l' ∧ completed Segment.size segs' (n - P') = [] := by
  refine Loop.run_total (fun k t => SameLayout s t.1 ∧ ∃ P segs base l, k = n - P ∧
    Progress all held S rb n t.1 t.2 P segs base l) _ ?_ (k := n - P) ⟨.refl s, P, segs, base, l, rfl, pr⟩
    (Nat.lt_succ_self _)
  rintro k ⟨t, ib1⟩ ⟨hst, P, segs, base, l, rfl, pr⟩
  rcases progress_turn pr hal with ⟨ht, hc⟩ | ⟨t', ib1', P', segs', base', l', ht, hlt, hle, hs, pr'⟩
  · exact .inl ⟨t, ht, hst, P, segs, base, l, { pr with parsing := ⟨pr.parsing.1, .inl rfl⟩ }, hc⟩
  · exact .inr ⟨_, n - P', ht, by omega, hst.trans hs, P', segs', base', l', rfl, pr'⟩

end Reader

end AmiPiBorg
