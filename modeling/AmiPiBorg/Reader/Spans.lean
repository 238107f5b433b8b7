import AmiPiBorg.Reader.Counts

/-!
# What is queued has been received

On any bytes at all, every packet that the parser queues occupies a range of the received stream: `Occupies`. The ranges
follow each other, as the offsets of all buffers that the parser can still come to lie behind the last one: `Ahead`.
This holds although the parser may go back to a header that it has given up, with the offset of the buffer behind it
moved already: a header in two buffers is always read from the start of the second one.

* `reading_turn`: a turn of the parser keeps `Reading`, the invariant of the loop.
* `tracked_step`, `tracked_run`: every event keeps `Tracked`, the invariant between events.
* `packets_received`: the result.
-/

set_option autoImplicit false

namespace AmiPiBorg

open ProgLib

/-- The number of bytes that a header announces, its own included. -/
def Packet.extent (p : Packet) : Nat :=
  if p.length.toNat = 0 then sizeofPacket else sizeofPacket + p.length.toNat + if p.padded then 1 else 0

theorem Packet.le_extent (p : Packet) : sizeofPacket ≤ p.extent := by
  simp only [Packet.extent]
  split <;> omega

namespace Reader

/-- All offsets of the chain `l`, which holds the stream from `base` on, stand at `e` or behind it. -/
def Past (s : Reader) (e : Nat) : Nat → List IbPtr → Prop
  | _, [] => True
  | base, a :: l => e ≤ base + (s.ibs a).offset ∧ Past s e (base + bufferSize) l

/-- The packet occupies the range `r` of the stream: it starts at an even position, with `PACKET_ID` and a length in
range, its checksum is right, and it was queued with the header's fields and the bytes behind the header. -/
structure Occupies (S : Mem) (s : Reader) (ip : InPacket) (r : Nat × Nat) : Prop where
  even : r.1 % 2 = 0
  id : (Packet.load (S.from_ r.1)).id = packetId
  length_le : (Packet.load (S.from_ r.1)).length.toNat ≤ bufferSize
  ends : r.2 = r.1 + (Packet.load (S.from_ r.1)).extent
  sum : calculateChecksum (S.from_ r.1) (r.2 - r.1) = some 0xFFFF
  type : ip.type = (Packet.load (S.from_ r.1)).type
  flags : ip.flags = (Packet.load (S.from_ r.1)).flags
  connId : ip.connId = (Packet.load (S.from_ r.1)).connId
  packId : ip.packId = (Packet.load (S.from_ r.1)).packId
  data : s.inPacketToBuffer ip = S.slice (r.1 + sizeofPacket) (Packet.load (S.from_ r.1)).length.toNat

/-- The packets `U` occupy ranges that follow each other, up to position `e`. -/
def Spans (S : Mem) (s : Reader) (e : Nat) (U : List InPacket) : Prop :=
  ∃ rs : List (Nat × Nat), List.Forall₂ (s.Occupies S) U rs ∧ rs.Pairwise (fun r q => r.2 ≤ q.1) ∧ ∀ r ∈ rs, r.2 ≤ e

variable {s s' : Reader} {al : Alloc} {S : Mem} {n base e f : Nat} {a c ib1 : IbPtr} {p : Option IbPtr}
  {L l : List IbPtr} {h : Header} {d : Located} {ip : InPacket} {U : List InPacket} {rb : Option BufPtr}
  {held : List InPacket}

/-! ## Ranges -/

theorem Occupies.congr {r : Nat × Nat} (ho : s.Occupies S ip r) (hd : s'.inPacketToBuffer ip = s.inPacketToBuffer ip) :
    s'.Occupies S ip r := { ho with data := hd.trans ho.data }

theorem Spans.congr (hs : s.Spans S e U) (hd : ∀ ip ∈ U, s'.inPacketToBuffer ip = s.inPacketToBuffer ip) :
    s'.Spans S e U := by
  obtain ⟨rs, hrs, hp, he⟩ := hs
  refine ⟨rs, ?_, hp, he⟩
  clear hp he
  induction hrs with
  | nil => exact .nil
  | cons ho _ ih => exact .cons (ho.congr (hd _ List.mem_cons_self)) (ih fun q hq => hd q (List.mem_cons_of_mem _ hq))

/-- One more packet behind the others. -/
theorem Spans.concat {q : Nat} (hs : s.Spans S e U) (ho : s.Occupies S ip (q, f)) (hq : e ≤ q) (hf : q ≤ f) :
    s.Spans S f (U ++ [ip]) := by
  obtain ⟨rs, hrs, hp, he⟩ := hs
  refine ⟨rs ++ [(q, f)], List.rel_append hrs (.cons ho .nil), ?_, fun r hr => ?_⟩
  · refine List.pairwise_append.2 ⟨hp, List.pairwise_singleton _ _, fun r hr r' hr' => ?_⟩
    rw [List.mem_singleton.1 hr']
    exact (he r hr).trans hq
  · rcases List.mem_append.1 hr with hr | hr
    · exact (he r hr).trans (hq.trans hf)
    · rw [List.mem_singleton.1 hr]

/-- Related lists have related sublists. -/
theorem forall₂_sublist {α β : Type} {R : α → β → Prop} {xs' xs : List α} (hx : xs'.Sublist xs) :
    ∀ {ys : List β}, List.Forall₂ R xs ys → ∃ ys' : List β, ys'.Sublist ys ∧ List.Forall₂ R xs' ys' := by
  induction hx with
  | slnil => exact fun h => ⟨_, .refl _, h⟩
  | cons x _ ih =>
    rintro _ (_ | ⟨_, h⟩)
    obtain ⟨ys', hs, h'⟩ := ih h
    exact ⟨ys', hs.cons _, h'⟩
  | cons_cons x _ ih =>
    rintro _ (_ | ⟨hxy, h⟩)
    obtain ⟨ys', hs, h'⟩ := ih h
    exact ⟨_ :: ys', hs.cons_cons _, .cons hxy h'⟩

theorem forall₂_mem_left {α β : Type} {R : α → β → Prop} {xs : List α} {ys : List β} (h : List.Forall₂ R xs ys) {x : α}
    (hx : x ∈ xs) : ∃ y ∈ ys, R x y := by
  induction h with
  | nil => cases hx
  | cons hxy _ ih =>
    rcases List.mem_cons.1 hx with rfl | hx
    · exact ⟨_, List.mem_cons_self, hxy⟩
    · obtain ⟨y, hy, hR⟩ := ih hx
      exact ⟨y, List.mem_cons_of_mem _ hy, hR⟩

theorem forall₂_mem_right {α β : Type} {R : α → β → Prop} {xs : List α} {ys : List β} (h : List.Forall₂ R xs ys) {y : β}
    (hy : y ∈ ys) : ∃ x ∈ xs, R x y :=
  forall₂_mem_left (R := flip R) h.flip hy

/-- Without some of the packets. -/
theorem Spans.sublist {U' : List InPacket} (hs : s.Spans S e U) (hU : U'.Sublist U) : s.Spans S e U' := by
  obtain ⟨rs, hrs, hp, he⟩ := hs
  obtain ⟨rs', hsub, hrs'⟩ := forall₂_sublist hU hrs
  exact ⟨rs', hrs', hp.sublist hsub, fun r hr => he r (hsub.subset hr)⟩

/-- The packet that the parser accepts. -/
theorem Accepted.size_even (acc : s.Accepted al a h d) (heven : (s.ibs a).offset % 2 = 0)
    (hB : s.bytes a ≤ bufferSize) : h.size % 2 = 0 ∧ h.size < 65536 := by
  have hL := lengths_of_locate acc.header acc.locate heven acc.le hB
  have hne : ¬(h.hdr.length.toNat + d.oddSize) % 2 = 1 := fun ho => by
    cases acc.sum.symm.trans ((packetSum_eq_none_iff hL acc.length_le).2 ho)
  have hodd := hL.odd
  have hle := acc.length_le
  have h1 := h.oddSize_le
  simp only [Header.size, sizeofPacket, bufferSize] at *
  split <;> rename_i h0 <;> simp only [h0, if_true, if_false] at hodd <;> omega

/-- **An accepted packet** occupies the range that its header announces. -/
theorem occupies_newPacket (w : Window s S n (some a) base (a :: l)) (acc : s.Accepted al a h d)
    (heven : (s.ibs a).offset % 2 = 0) (hB : s.bytes a ≤ bufferSize) :
    s.Occupies S (newPacket a h d) (base + (s.ibs a).offset, base + (s.ibs a).offset + h.size) := by
  obtain ⟨he, hlt⟩ := acc.size_even heven hB
  have hp := header_bytes w acc.le acc.header
  have sp := spread_of_locate w acc.le heven acc.header he acc.locate
  have hhdr : h.hdr = Packet.load (S.from_ (base + (s.ibs a).offset)) := Packet.load_congr hp
  have hsum := packetSum_eq hp sp hlt he
  have hdata := payload_newPacket sp
  have hP : (base + (s.ibs a).offset) % 2 = 0 := by
    have := w.aligned
    simp only [bufferSize] at this
    omega
  rw [acc.sum] at hsum
  generalize base + (s.ibs a).offset = P at *
  refine ⟨hP, hhdr ▸ acc.id, hhdr ▸ acc.length_le, by rw [← hhdr]; rfl, ?_, congrArg Packet.type hhdr,
    congrArg Packet.flags hhdr, congrArg Packet.connId hhdr, congrArg Packet.packId hhdr, hhdr ▸ hdata⟩
  have hw : (S.from_ P).wordSum 0 (h.size / 2) = S.wordSum P (h.size / 2) := Mem.wordSum_congr fun i _ => by
    rw [Nat.zero_add]
    rfl
  show calculateChecksum (S.from_ P) (P + h.size - P) = _
  rw [Nat.add_sub_cancel_left, calculateChecksum, addToChecksum_even he hlt, Option.bind_some, UInt32.zero_add, hw, hsum]

/-! ## A turn -/

/-- The chain `L` holds the stream from `base` on, and the parser has nothing before it that lies before `e`. -/
structure Ahead (S : Mem) (n e : Nat) (s : Reader) (base : Nat) (L : List IbPtr) : Prop where
  laid : s.Laid S n base L
  aligned : base % bufferSize = 0
  past : s.Past e base L

/-- The buffers that the parser has before it. -/
theorem Ahead.suffix : ∀ (t : List IbPtr) {base : Nat}, Ahead S n e s base (t ++ l) →
    Ahead S n e s (base + bufferSize * t.length) l
  | [], _, A => A
  | c :: t, base, A => by
    have h := Ahead.suffix t ⟨A.laid.2.2.2, by have := A.aligned; simp only [bufferSize] at *; omega, A.past.2⟩
    rwa [Nat.add_assoc, Nat.add_comm bufferSize, ← Nat.mul_succ] at h

theorem Ahead.at (A : Ahead S n e s base L) (hp : s.At L p) :
    ∃ base' l, l <:+ L ∧ Window s S n p base' l ∧ Ahead S n e s base' l := by
  obtain ⟨l, ⟨t, rfl⟩, hc⟩ := hp
  have A' := A.suffix t
  exact ⟨_, l, ⟨t, rfl⟩, ⟨hc, A'.laid, A'.aligned⟩, A'⟩

theorem past_of_le : ∀ {l : List IbPtr} {base : Nat}, e ≤ base → s.Past e base l
  | [], _, _ => trivial
  | _ :: _, _, h => ⟨h.trans (Nat.le_add_right _ _), past_of_le (h.trans (Nat.le_add_right _ _))⟩

/-- Offsets only go on. -/
theorem Past.mono : ∀ {l : List IbPtr} {base : Nat}, s.Past e base l →
    (∀ a ∈ l, (s.ibs a).offset ≤ (s'.ibs a).offset) → s'.Past e base l
  | [], _, _, _ => trivial
  | a :: _, _, ⟨h₁, h₂⟩, hle => ⟨h₁.trans (Nat.add_le_add_left (hle a List.mem_cons_self) _),
      h₂.mono fun c hc => hle c (List.mem_cons_of_mem a hc)⟩

/-- Giving up a header leaves the stream, and goes on in it. -/
theorem Ahead.skip (A : Ahead S n e s base L) (hb : s.bytes a ≤ bufferSize) : Ahead S n e (s.skip a) base L :=
  ⟨A.laid.congr (skip_sameLayout s a), A.aligned, A.past.mono fun c _ => by
    have := offset_skip hb c
    omega⟩

/-- **Accepting a packet** goes on behind it. -/
theorem Ahead.accept {r : List IbPtr} (w : Window s S n (some a) base (a :: l)) (acc : s.Accepted al a h d)
    (heven : (s.ibs a).offset % 2 = 0) (hB : ∀ c ∈ a :: l, s.bytes c ≤ bufferSize ∧ (s.ibs c).offset ≤ 8193)
    (hr : Chain s.next (some (d.ib2.getD a)) (d.ib2.getD a :: r)) : ∃ base',
      Ahead S n (base + (s.ibs a).offset + h.size) (s.accept a h d).1 base' (d.ib2.getD a :: r) := by
  have hs := accept_sameLayout s a h d
  have hf := acc.found
  have hBa := hB a List.mem_cons_self
  have sp := spread_of_locate w acc.le heven acc.header (acc.size_even heven hBa.1).1 acc.locate
  have hoff := accept_offset s a h d (b := d.ib2.getD a)
  rw [if_pos rfl] at hoff
  cases hd : d.ib2 with
  | none =>
    rw [hd, Option.getD_none] at hoff hr
    rw [Option.getD_none]
    obtain rfl : r = l := (List.cons.inj (hr.unique w.chain)).2
    have h₁ := sp.one hd
    have h₂ := (hf.one hd).2
    refine ⟨base, w.laid.congr hs, w.aligned, ?_, past_of_le ?_⟩
    · rw [hoff]
      simp only [bufferSize] at *
      omega
    · omega
  | some c =>
    rw [hd, Option.getD_some] at hoff hr
    rw [Option.getD_some]
    obtain ⟨hhead, h₁⟩ := sp.two c hd
    obtain ⟨l', rfl⟩ := List.head?_eq_some_iff.1 hhead
    have h₂ := hf.two c hd
    have hBc := hB c (List.mem_cons_of_mem a List.mem_cons_self)
    have w' := w.behind
    rw [w.next_eq, List.head?_cons] at w'
    obtain rfl : r = l' := (List.cons.inj (hr.unique w'.chain)).2
    refine ⟨base + bufferSize, w'.laid.congr hs, w'.aligned, ?_, past_of_le ?_⟩
    · rw [hoff]
      simp only [bufferSize] at *
      omega
    · omega

/-- The parser at `p`, with the buffers `L` before it: what is queued lies before `e`, and what is to come behind it. -/
structure Reading (S : Mem) (n : Nat) (rb : Option BufPtr) (held : List InPacket) (s : Reader) (p : Option IbPtr)
    (base : Nat) (L : List IbPtr) (e : Nat) : Prop where
  kept : ∃ T, Kept T rb s L
  stands : s.At L p
  ahead : Ahead S n e s base L
  le : e ≤ n
  spans : s.Spans S e (held ++ s.queue)
  stored : ∀ ip ∈ held ++ s.queue, s.Stored ip.data1 ip.data1Length ∧ s.Stored ip.data2 ip.data2Length

theorem data_congr (hm : s'.mem = s.mem) (ip : InPacket) : s'.inPacketToBuffer ip = s.inPacketToBuffer ip := by
  simp only [inPacketToBuffer, hm]

theorem reading_skip {ib2 : Option IbPtr} (R : Reading S n rb held s (some c) base L e) (hl : s.Looked c ib2) :
    Reading S n rb held (s.skip (ib2.getD c)) (some (ib2.getD c)) base L e := by
  obtain ⟨T, k⟩ := R.kept
  have hb := hl.at R.stands
  have hs := skip_sameLayout s (ib2.getD c)
  refine ⟨⟨T, k.skip hb⟩, hb.congr hs, R.ahead.skip (k.linked.bytes_le _ hb.mem), R.le, ?_, ?_⟩
  · rw [skip_queue]
    exact R.spans.congr fun ip _ => data_congr hs.mem_eq ip
  · rw [skip_queue]
    exact fun ip hip => ⟨(R.stored ip hip).1.congr hs, (R.stored ip hip).2.congr hs⟩

theorem reading_accept (R : Reading S n rb held s (some c) base L e) (acc : s.Accepted al c h d) :
    ∃ base' L' e', Reading S n rb held (s.accept c h d).1 (s.accept c h d).2 base' L' e' := by
  obtain ⟨T, k⟩ := R.kept
  obtain ⟨base', l, hl, w, A⟩ := R.ahead.at R.stands
  obtain ⟨l', rfl, -⟩ := w.chain.of_some
  obtain ⟨r, k', hp⟩ := k.accept R.stands acc
  have hs := accept_sameLayout s c h d
  have heven := k.linked.even c R.stands.mem
  have hr : Chain s.next (some (d.ib2.getD c)) (d.ib2.getD c :: r) := by
    obtain ⟨q, hq⟩ := k'.linked.chain
    rw [hs.next_eq] at hq
    exact ⟨rfl, hq.2⟩
  have hB : ∀ x ∈ c :: l', s.bytes x ≤ bufferSize ∧ (s.ibs x).offset ≤ 8193 := fun x hx =>
    ⟨k.linked.bytes_le x (hl.subset hx), k.offset_le x (hl.subset hx)⟩
  obtain ⟨base₂, A'⟩ := Ahead.accept w acc heven hB hr
  have hn := (locate_isSome_iff w acc.le acc.header).1 (by rw [acc.locate]; rfl)
  have hown : ∀ x, s.At L (some x) → (s.ibs x).buf ∈ s.bufUse := fun x hx => k.owned.bufUse x hx.mem
  have hown2 : ∀ x, d.ib2 = some x → (s.ibs x).buf ∈ s.bufUse := fun x hx => by
    have := acc.found.looked.at R.stands
    rw [hx] at this
    exact hown x this
  refine ⟨base₂, _, _, ⟨_, k'⟩, hp, A', hn.1, ?_, ?_⟩
  · rw [accept_queue, ← List.append_assoc]
    exact (R.spans.concat (occupies_newPacket w acc heven (hB c List.mem_cons_self).1) A.past.1
      (Nat.le_add_right _ _)).congr fun ip _ => data_congr hs.mem_eq ip
  · intro ip hip
    rw [accept_queue, ← List.append_assoc, List.mem_append, List.mem_singleton] at hip
    rcases hip with hip | rfl
    · exact ⟨(R.stored ip hip).1.congr hs, (R.stored ip hip).2.congr hs⟩
    · exact ⟨(acc.found.data1.stored (hown c R.stands) hown2).congr hs,
        (acc.found.data2.stored (hown c R.stands) hown2).congr hs⟩

/-- **A turn** queues nothing but what has been received. -/
theorem reading_turn {t : Turn (Reader × Option IbPtr) Reader} (R : Reading S n rb held s p base L e)
    (ht : turn al (s, p) = some t) :
    t = .done s ∨ ∃ u base' L' e', t = .again u ∧ Reading S n rb held u.1 u.2 base' L' e' := by
  cases p with
  | none =>
    cases ht
    exact .inl rfl
  | some c =>
    obtain rfl | ⟨ib2, hg, rfl⟩ | ⟨h, d, acc, rfl⟩ := turn_cases ht
    · exact .inl rfl
    · obtain ⟨T, k⟩ := R.kept
      exact .inr ⟨_, base, L, e, badData_again (k.linked.bytes_le _ (hg.looked.at R.stands).mem), reading_skip R hg.looked⟩
    · obtain ⟨base', L', e', R'⟩ := reading_accept R acc
      exact .inr ⟨_, base', L', e', rfl, R'⟩

/-- The chain from `pr_InBuf`. -/
theorem Reading.front (R : Reading S n rb held s p base L e) :
    ∃ base' l, Reading S n rb held s s.inBuf base' l e ∧ Chain s.next s.inBuf l := by
  obtain ⟨T, k⟩ := R.kept
  obtain ⟨base', l, -, w, A⟩ := R.ahead.at k.inBuf
  obtain ⟨l', k', hc⟩ := k.front
  obtain rfl := hc.unique w.chain
  exact ⟨base', l', { R with kept := ⟨T, k'⟩, stands := ⟨l', List.suffix_refl _, hc⟩, ahead := A }, hc⟩

/-- The loop. -/
theorem reading_reach {t : Reader × Option IbPtr} (R : Reading S n rb held s p base L e)
    (ht : Loop.Reach (turn al) (s, p) t) : ∃ base' L' e', Reading S n rb held t.1 t.2 base' L' e' := by
  refine ht.inv (fun t => ∃ base' L' e', Reading S n rb held t.1 t.2 base' L' e') ?_ ⟨base, L, e, R⟩
  rintro ⟨t, p⟩ u ⟨base, L, e, R⟩ hu
  obtain hd | ⟨v, base', L', e', hv, R'⟩ := reading_turn R hu
  · cases hd
  · cases hv
    exact ⟨base', L', e', R'⟩

theorem reading_loop {fuel : Nat} (R : Reading S n rb held s p base L e)
    (hr : Loop.run (turn al) fuel (s, p) = some s') :
    ∃ base' L' e', Reading S n rb held s' s'.inBuf base' L' e' ∧ Chain s'.next s'.inBuf L' := by
  refine Loop.run_inv (fun t => ∃ base' L' e', Reading S n rb held t.1 t.2 base' L' e')
    (fun s' => ∃ base' L' e', Reading S n rb held s' s'.inBuf base' L' e' ∧ Chain s'.next s'.inBuf L') ?_ ?_
    ⟨base, L, e, R⟩ hr
  · rintro ⟨t, p⟩ u ⟨base, L, e, R⟩ hu
    obtain hd | ⟨v, base', L', e', hv, R'⟩ := reading_turn R hu
    · cases hd
    · cases hv
      exact ⟨base', L', e', R'⟩
  · rintro ⟨t, p⟩ r ⟨base, L, e, R⟩ hu
    obtain hd | ⟨v, -, -, -, hv, -⟩ := reading_turn R hu
    · cases hd
      obtain ⟨base', l, R', hc⟩ := R.front
      exact ⟨base', l, e, R', hc⟩
    · cases hv

/-! ## A read -/

section Arrive

variable {b : BufPtr} {bs : List UInt8} {ib : IbPtr}

theorem Laid.bytes_pos : ∀ {l : List IbPtr} {base : Nat}, s.Laid S n base l → ∀ a ∈ l, 0 < s.bytes a
  | a :: _, base, ⟨h₁, h₂, _, h₄⟩, c, hc => by
    rcases List.mem_cons.1 hc with rfl | hc
    · simp only [Filled, bufferSize] at h₂
      omega
    · exact h₄.bytes_pos c hc

/-- A new buffer lies behind all that has been received. -/
theorem Past.concat (hib : (s'.ibs ib).offset = 0) : ∀ {l : List IbPtr} {base : Nat}, s.Laid S n base l → e ≤ n →
    s.Past e base l → (∀ a ∈ l, (s'.ibs a).offset = (s.ibs a).offset) → s'.Past e base (l ++ [ib])
  | [], base, h, he, _, _ => by
    refine ⟨?_, trivial⟩
    rw [hib]
    exact he.trans h.1
  | a :: _, base, h, he, hp, hoff => by
    refine ⟨?_, Past.concat hib h.2.2.2 he hp.2 fun c hc => hoff c (List.mem_cons_of_mem a hc)⟩
    rw [hoff a List.mem_cons_self]
    exact hp.1

/-- The read buffer `b` is the last of the chain `L`, or new, or full. -/
def Room (s : Reader) (n : Nat) (L : List IbPtr) (b : BufPtr) : Prop :=
  (s.bufs b).offset = bufferSize ∨ (s.bufs b).offset = n % bufferSize ∧
    (n % bufferSize ≠ 0 → ∃ a, L.getLast? = some a ∧ (s.ibs a).buf = b)

/-- **A read** brings its bytes before the parser. -/
theorem reading_arrive (k : Counted held (some b) s L) (hc : Chain s.next s.inBuf L)
    (R : Reading S n (some b) held s s.inBuf base L e) (hroom : s.Room n L b) (hal : ∀ s, (al.inBuffer s).isSome)
    (hS : S.Holds n bs) (hne : bs ≠ []) (hfit : (s.bufs b).offset + bs.length ≤ bufferSize) :
    ∃ t L', (∀ fuel, L.length < fuel → (s.fill b bs).appendBuffer fuel al b = some (t, true)) ∧
      t.bufs = (s.fill b bs).bufs ∧ Reading S (n + bs.length) (some b) held t t.inBuf base L' e ∧
      ∃ a, L'.getLast? = some a ∧ (t.ibs a).buf = b := by
  have hpos : 0 < bs.length := List.length_pos_of_ne_nil hne
  obtain hfull | ⟨hoff, hlast⟩ := hroom
  · omega
  have hdata : ∀ ip ∈ held ++ s.queue, (s.fill b bs).inPacketToBuffer ip = s.inPacketToBuffer ip := fun ip hip => by
    simp only [inPacketToBuffer, (R.stored ip hip).1.slice_fill, (R.stored ip hip).2.slice_fill]
  have hstored : ∀ ip ∈ held ++ s.queue, (s.fill b bs).Stored ip.data1 ip.data1Length ∧
      (s.fill b bs).Stored ip.data2 ip.data2Length := fun ip hip =>
    ⟨(R.stored ip hip).1.fill, (R.stored ip hip).2.fill⟩
  have kf := k.fill hc hfit
  have w : Window s S n s.inBuf base L := ⟨hc, R.ahead.laid, R.ahead.aligned⟩
  have hle : e ≤ n + bs.length := R.le.trans (Nat.le_add_right _ _)
  by_cases h0 : n % bufferSize = 0
  · -- a new buffer
    obtain ⟨ib, hib⟩ := Option.isSome_iff_exists.1 (hal (s.fill b bs))
    have hfresh := al.inBuffer_fresh _ _ hib
    have hnotin : ib ∉ L := fun hm => hfresh (k.1.linked.live ib hm)
    have hnew : ∀ a ∈ L, (s.ibs a).buf ≠ b := fun a ha he => by
      have := R.ahead.laid.bytes_pos a ha
      rw [bytes, he, hoff, h0] at this
      cases this
    have kt := kf.appended hc hfresh hnew (by rw [bufs_fill_self]; exact hfit)
    have wt := w.fill_off hnotin hnew (hoff.trans h0) h0 hS hne (by omega)
    have hibs : ∀ a ∈ L, (((s.fill b bs).appended L ib b).ibs a).offset = (s.ibs a).offset := fun a ha => by
      rw [ibs_appended_on hnotin ha]
      rfl
    have hmem : ((s.fill b bs).appended L ib b).mem = (s.fill b bs).mem := funext fun a => by cases a <;> rfl
    refine ⟨(s.fill b bs).appended L ib b, L ++ [ib], fun fuel hf => append_new hc hf hnew hib hnotin, rfl,
      ⟨⟨_, kt.1⟩, ⟨_, List.suffix_refl _, wt.chain⟩, ⟨wt.laid, wt.aligned, ?_⟩, hle, ?_, hstored⟩, ib,
      List.getLast?_concat, by rw [ibs_appended_new]⟩
    · exact Past.concat (by rw [ibs_appended_new]) R.ahead.laid R.le R.ahead.past hibs
    · exact R.spans.congr fun ip hip => (data_congr hmem ip).trans (hdata ip hip)
  · -- the last buffer of the chain
    obtain ⟨a, ha, hab⟩ := hlast h0
    have hm : a ∈ L := List.mem_of_getLast? ha
    have wt := w.fill_on k.1.owned hm hab hoff h0 hS (hoff ▸ hfit)
    exact ⟨s.fill b bs, L, fun fuel hf => append_old hc hf ⟨a, hm, hab⟩, rfl,
      ⟨⟨_, kf.1⟩, ⟨L, List.suffix_refl _, hc⟩, ⟨wt.laid, wt.aligned, R.ahead.past.mono fun _ _ => Nat.le_refl _⟩, hle,
        R.spans.congr hdata, hstored⟩, a, ha, hab⟩

end Arrive

end Reader

namespace Rx

open Reader

/-- The bytes of an event. -/
def Event.bytes : Event → List UInt8
  | .receive _ bs => bs
  | _ => []

theorem received_cons (e : Event) (es : List Event) : received (e :: es) = e.bytes ++ received es := by
  cases e <;> rfl

/-- A read finds an `InBuffer`; a release counts its packet out of the packet's own buffers and frees none that the
parser has before it. -/
def FedStep (x : Rx) : Event → Prop
  | .receive al _ => ∀ s, (al.inBuffer s).isSome
  | e => x.OwnStep e

/-- Between events `n` bytes of the stream `S` have arrived, and what is queued was among them. -/
def Follows (S : Mem) (n : Nat) (x : Rx) : Prop :=
  ∃ base L e, Reading S n x.readBuffer x.held x.rd x.rd.inBuf base L e ∧ Chain x.rd.next x.rd.inBuf L ∧
    ∀ b, x.readBuffer = some b → x.rd.Room n L b

/-- The invariant. -/
def Tracked (S : Mem) (n : Nat) (x : Rx) : Prop := x.Exact ∧ x.Follows S n

variable {S : Mem} {n : Nat} {x x' : Rx} {al : Alloc} {bs : List UInt8} {fuel : Nat}

/-- A new read buffer, where the last one is full. -/
theorem follows_allocate {c : BufPtr} (hex : x.Exact) (h : x.Follows S n) (h0 : n % bufferSize = 0)
    (hc : c ∉ x.rd.bufUse) : Follows S n { x with rd := x.rd.allocateBuffer c, readBuffer := some c } := by
  obtain ⟨base, L, e, R, hch, -⟩ := h
  obtain ⟨⟨L', k, hch'⟩, -⟩ := hex
  obtain rfl := hch.unique hch'
  have w := (show Window x.rd S n x.rd.inBuf base L from ⟨hch, R.ahead.laid, R.ahead.aligned⟩).allocateBuffer k.1.owned hc
  refine ⟨base, L, e, ⟨⟨_, (k.allocateBuffer hch hc).1⟩, R.stands, ⟨w.laid, w.aligned, ?_⟩, R.le, ?_, fun ip hip => ?_⟩,
    hch, ?_⟩
  · exact R.ahead.past.mono fun _ _ => Nat.le_refl _
  · exact R.spans.congr fun ip _ => data_congr mem_allocateBuffer ip
  · exact ⟨(R.stored ip hip).1.allocateBuffer hc, (R.stored ip hip).2.allocateBuffer hc⟩
  · rintro b ⟨⟩
    refine .inr ⟨?_, fun h => absurd h0 h⟩
    rw [bufs_allocateBuffer_self, h0]

theorem follows_start (al : Alloc) (ibs : IbPtr → InBuffer) (bufs : BufPtr → Buffer) : (start al ibs bufs).Follows S 0 := by
  have hex₀ : Exact { rd := createPacketReader ibs bufs, readBuffer := none, held := [] } := exact_init ibs bufs
  have h₀ : Follows S 0 { rd := createPacketReader ibs bufs, readBuffer := none, held := [] } := by
    obtain ⟨⟨L, k, hc⟩, -⟩ := hex₀
    obtain rfl := Chain.unique hc (show Chain _ none [] from rfl)
    exact ⟨0, [], 0, ⟨⟨_, k.1⟩, ⟨[], List.suffix_refl _, rfl⟩, ⟨⟨Nat.le_refl 0, by decide⟩, rfl, trivial⟩, Nat.le_refl 0,
      ⟨[], .nil, .nil, nofun⟩, nofun⟩, rfl, nofun⟩
  obtain hx | ⟨c, hc, hx⟩ := beginRead_cases al { rd := createPacketReader ibs bufs, readBuffer := none, held := [] }
  · rw [start, hx]
    exact h₀
  · rw [start, hx]
    exact follows_allocate hex₀ h₀ rfl hc

/-- **A read.** -/
theorem follows_receive {b : BufPtr} {rd : Reader} (hex : x.Exact) (h : x.Follows S n)
    (hal : ∀ s, (al.inBuffer s).isSome) (hS : S.Holds n bs) (hne : bs ≠ []) (hrb : x.readBuffer = some b)
    (hfit : (x.rd.bufs b).offset + bs.length ≤ bufferSize) (hp : (x.rd.fill b bs).processBuffer fuel al b = some rd) :
    Follows S (n + bs.length) { x with rd := rd } ∧
      ((rd.bufs b).offset = bufferSize → (n + bs.length) % bufferSize = 0) := by
  obtain ⟨base, L, e, R, hch, hroom⟩ := h
  obtain ⟨⟨L', k, hch'⟩, -⟩ := hex
  obtain rfl := hch.unique hch'
  rw [hrb] at R k
  have hpos : 0 < bs.length := List.length_pos_of_ne_nil hne
  have hr := hroom b hrb
  obtain ⟨t, L₁, happ, hbufs, R₁, a, ha, hab⟩ := reading_arrive k hch R hr hal hS hne hfit
  have hp' := (processBuffer_of_append (happ _ (le_max_right fuel (L.length + 1)))).symm.trans
    (processBuffer_mono hp (le_max_left _ _))
  rw [if_pos rfl] at hp'
  obtain ⟨base', L₂, e', R₂, hc₂⟩ := reading_loop R₁ hp'
  have hs := loop_sameLayout hp'
  have hoff : (rd.bufs b).offset = n % bufferSize + bs.length := by
    rw [hs.bufs, hbufs, bufs_fill_self]
    obtain h | ⟨h, -⟩ := hr <;> simp only at * <;> omega
  have hle : (rd.bufs b).offset ≤ bufferSize := by
    rw [hs.bufs, hbufs, bufs_fill_self]
    exact hfit
  -- the read buffer is still the last one of the chain
  have hlast : ∃ a, L₂.getLast? = some a ∧ (rd.ibs a).buf = b := by
    obtain ⟨T₁, k₁⟩ := R₁.kept
    obtain ⟨T₂, k₂⟩ := R₂.kept
    have hab' : (rd.ibs a).buf = b := (hs.buf a).trans hab
    have hlive : a ∈ rd.ibUse := hs.ibUse ▸ k₁.linked.live a (List.mem_of_getLast? ha)
    exact ⟨a, (k₂.read b rfl).2 a hlive hab', hab'⟩
  refine ⟨⟨base', L₂, e', by rw [hrb]; exact R₂, hc₂, fun c hc => ?_⟩, fun hfull => ?_⟩
  · cases hrb.symm.trans hc
    show (rd.bufs b).offset = _ ∨ (rd.bufs b).offset = _ ∧ _
    by_cases hfull : (rd.bufs b).offset = bufferSize
    · exact .inl hfull
    · refine .inr ⟨?_, fun _ => hlast⟩
      simp only [bufferSize] at *
      omega
  · simp only [bufferSize] at *
    omega

/-- Taking a packet from the queue. -/
theorem follows_dequeue (h : x.Follows S n) :
    Follows S n { x with rd := x.rd.dequeueInPacket.2, held := x.held ++ x.rd.dequeueInPacket.1.toList } := by
  obtain ⟨base, L, e, R, hc, hroom⟩ := h
  obtain ⟨T, k⟩ := R.kept
  obtain ⟨q, m, hd, hq⟩ := dequeue_cases x.rd
  have hU : x.held ++ x.rd.dequeueInPacket.1.toList ++ q = x.held ++ x.rd.queue := by rw [List.append_assoc, hq]
  have hs : SameLayout x.rd { x.rd with queue := q, queueSize := m } :=
    ⟨rfl, fun _ => rfl, fun _ => rfl, fun _ => rfl, rfl, rfl⟩
  rw [hd]
  refine ⟨base, L, e, ⟨⟨T, { k with
    linked := ⟨k.linked.chain, k.linked.live, k.linked.even, k.linked.bytes_le, k.linked.count_lt⟩
    inBuf := k.inBuf }⟩, R.stands, ⟨R.ahead.laid.congr hs, R.ahead.aligned, ?_⟩, R.le, ?_, ?_⟩, hc, hroom⟩
  · exact R.ahead.past.mono fun _ _ => Nat.le_refl _
  · show Spans S _ e (x.held ++ x.rd.dequeueInPacket.1.toList ++ q)
    rw [hU]
    exact R.spans.congr fun _ _ => rfl
  · show ∀ ip ∈ x.held ++ x.rd.dequeueInPacket.1.toList ++ q, _
    rw [hU]
    exact R.stored

/-- Releasing a packet. -/
theorem follows_release {i : Nat} {ip : InPacket} (hex : x.Exact) (h : x.Follows S n) (hi : x.held[i]? = some ip)
    (hsafe : x.rd.SafeRelease ip) (hown : x.rd.OwnRelease ip) :
    Follows S n { x with rd := x.rd.releaseInPacket ip, held := x.held.eraseIdx i } := by
  obtain ⟨base, L, e, R, hc, hroom⟩ := h
  obtain ⟨⟨L', k, hc'⟩, hb⟩ := hex
  obtain rfl := hc.unique hc'
  obtain ⟨k', hch⟩ := k.release hc hi hsafe hown
  have hbytes : (x.rd.releaseInPacket ip).bytes = x.rd.bytes := funext fun a => by simp [bytes]
  have hdata : (x.rd.releaseInPacket ip).data = x.rd.data := funext fun a => by simp [data]
  have hmem : (x.rd.releaseInPacket ip).mem = x.rd.mem := funext fun a => by cases a <;> simp [mem]
  have hsub : (x.held.eraseIdx i ++ (x.rd.releaseInPacket ip).queue).Sublist (x.held ++ x.rd.queue) := by
    rw [releaseInPacket_queue]
    exact (List.eraseIdx_sublist _ _).append_right _
  -- the data of the other packets is in buffers that stay in use
  have huse : ∀ q ∈ x.held.eraseIdx i ++ (x.rd.releaseInPacket ip).queue, ∀ b off,
      q.data1 = some (b, off) ∨ q.data2 = some (b, off) → b ∈ (x.rd.releaseInPacket ip).bufUse := fun q hq b off hd => by
    obtain ⟨a, ha, rfl⟩ := (k'.2 q hq).data b off hd
    exact k'.1.buf a (k'.live hq ha)
  have hstored : ∀ {data : Option Addr} {len : Nat}, x.rd.Stored data len →
      (∀ b off, data = some (b, off) → b ∈ (x.rd.releaseInPacket ip).bufUse) →
      (x.rd.releaseInPacket ip).Stored data len := by
    rintro data len (h | ⟨b, off, rfl, -, hle⟩) hb
    · exact .inl h
    · exact .inr ⟨b, off, rfl, hb b off rfl, by rwa [releaseInPacket_bufs]⟩
  refine ⟨base, L, e, ⟨⟨_, k'.1⟩, ⟨L, List.suffix_refl _, hch⟩, ⟨R.ahead.laid.of_eq hbytes hdata, R.ahead.aligned,
    R.ahead.past.mono fun a _ => ?_⟩, R.le, ?_, fun q hq => ?_⟩, hch, fun b hb => ?_⟩
  · rw [releaseInPacket_offset]
  · exact (R.spans.sublist hsub).congr fun q _ => data_congr hmem q
  · obtain ⟨h₁, h₂⟩ := R.stored q (hsub.subset hq)
    exact ⟨hstored h₁ fun b off hd => huse q hq b off (.inl hd), hstored h₂ fun b off hd => huse q hq b off (.inr hd)⟩
  · obtain h | ⟨h, hl⟩ := hroom b hb
    · exact .inl (by simpa using h)
    · exact .inr ⟨by simpa using h, by simpa using hl⟩

/-- **Every event** keeps what is queued within what has been received. -/
theorem tracked_step {e : Event} (h : Tracked S n x) (hok : x.FedStep e) (hS : S.Holds n e.bytes)
    (hs : x.step fuel e = some x') : Tracked S (n + e.bytes.length) x' := by
  have hown : x.OwnStep e := by
    cases e with
    | release i => exact hok
    | _ => trivial
  refine ⟨exact_step h.1 hown hs, ?_⟩
  obtain ⟨hex, hfol⟩ := h
  cases e with
  | receive al bs =>
    obtain ⟨rfl, rfl⟩ | ⟨b, rd, hne, hrb, hfit, hp, rfl⟩ := receive_cases hs
    · exact hfol
    · have hex₁ := exact_receive hex hrb hfit hp
      obtain ⟨hf, hfull⟩ := follows_receive hex hfol hok hS hne hrb hfit hp
      show Follows S (n + bs.length) (srvBeginRead al ⟨rd, x.readBuffer, x.held⟩)
      by_cases hoff : (rd.bufs b).offset = bufferSize
      · obtain hx | ⟨c, hc, hx⟩ := beginRead_cases al ⟨rd, x.readBuffer, x.held⟩
        · rw [hx]
          exact hf
        · rw [hx]
          exact follows_allocate hex₁ hf (hfull hoff) hc
      · rw [hrb, beginRead_room x.held hoff, ← hrb]
        exact hf
  | dequeue =>
    cases hs
    exact follows_dequeue hfol
  | release i =>
    simp only [step] at hs
    split at hs
    · cases hs
    · rename_i ip hip
      cases hs
      obtain ⟨hsafe, hown⟩ := hok ip hip
      exact follows_release hex hfol hip hsafe hown

/-- **A run.** -/
theorem tracked_run : ∀ {es : List Event} {n : Nat} {x x' : Rx}, Tracked S n x → Along FedStep (step fuel) x es →
    S.Holds n (received es) → runs (step fuel) x es = some x' → Tracked S (n + (received es).length) x'
  | [], _, _, _, h, _, _, hx => by
    cases hx
    exact h
  | e :: es, n, x, x', h, hok, hS, hx => by
    rw [received_cons, Mem.holds_append] at hS
    obtain ⟨x₁, hs, hx₁⟩ := runs_cons_some hx
    have h₁ := tracked_run (tracked_step h hok.1 hS.1 hs) (hok.2 x₁ hs) hS.2 hx₁
    rwa [Nat.add_assoc, ← List.length_append, ← received_cons] at h₁

theorem tracked {ibs : IbPtr → InBuffer} {bufs : BufPtr → Buffer} {es : List Event} (hS : S.Holds 0 (received es))
    (hok : Along FedStep (step fuel) (start al ibs bufs) es) (hx : runs (step fuel) (start al ibs bufs) es = some x) :
    Tracked S (received es).length x := by
  have h := tracked_run ⟨exact_start al ibs bufs, follows_start al ibs bufs⟩ hok hS hx
  rwa [Nat.zero_add] at h

/-! ## The result -/

/-- **The reader queues nothing that it has not received**: on any bytes at all, and however they are cut into reads,
the packets that were queued occupy even ranges of the received stream, one behind the other. -/
theorem packets_received (al : Alloc) (ibs : IbPtr → InBuffer) (bufs : BufPtr → Buffer) (es : List Event) (fuel : Nat)
    (x : Rx) (hal : ∀ al bs, .receive al bs ∈ es → ∀ s, (al.inBuffer s).isSome) (hrel : ∀ i, .release i ∉ es)
    (hx : runs (step fuel) (start al ibs bufs) es = some x) : ∃ rs : List (Nat × Nat),
      List.Forall₂ (x.rd.Occupies (Mem.ofList (received es))) x.unreleased rs ∧
        rs.Pairwise (fun r q => r.2 ≤ q.1) ∧ ∀ r ∈ rs, r.2 ≤ (received es).length := by
  have hok : Along FedStep (step fuel) (start al ibs bufs) es :=
    along_of_mem (fun e he y => by
      cases e with
      | receive al bs => exact hal al bs he
      | dequeue => trivial
      | release i => exact absurd he (hrel i)) _
  obtain ⟨-, base, L, e, R, -⟩ := tracked (Mem.holds_ofList _) hok hx
  obtain ⟨rs, hrs, hp, he⟩ := R.spans
  exact ⟨rs, hrs, hp, fun r hr => (he r hr).trans R.le⟩

/-- The packet that fills a buffer. -/
theorem packets_received_full : ∃ (x : Rx) (r : Nat × Nat),
    runs (step 2) fresh [.receive .unbounded fullPacket.bytes] = some x ∧
      List.Forall₂ (x.rd.Occupies (Mem.ofList (received [.receive .unbounded fullPacket.bytes]))) x.unreleased [r] := by
  obtain ⟨rd, ip, tf, hstep⟩ := full_received
  have hx : runs (step 2) fresh [.receive .unbounded fullPacket.bytes] = some ⟨rd.allocateBuffer 2, some 2, []⟩ := by
    rw [runs_cons (hstep 2 (Nat.le_refl 2)), runs_nil]
  have hU : (⟨rd.allocateBuffer 2, some 2, []⟩ : Rx).unreleased = [ip] := tf.queue
  obtain ⟨rs, hrs, -⟩ := packets_received .unbounded (fun _ => default) (fun _ => default)
    [.receive .unbounded fullPacket.bytes] 2 _
    (by rintro al bs h s; cases List.mem_singleton.1 h; rfl) (by rintro i h; cases List.mem_singleton.1 h) hx
  rw [hU] at hrs
  cases hrs with
  | cons h hnil =>
    cases hnil
    exact ⟨_, _, hx, by rw [hU]; exact .cons h .nil⟩

end Rx

end AmiPiBorg
