import AmiPiBorg.Reader.Layout

/-!
# The parser on a stream

What a turn does at position `P` of the stream, in terms of the stream: it waits (`turn_wait`), gives up a header that
does not start with `PACKET_ID` (`turn_garbage`), or waits for a well-formed packet and takes it (`turn_packet_wait`,
`turn_packet`). After a packet the parser stands behind it: `Parsing` at `P + p.size`.
-/

set_option autoImplicit false

namespace AmiPiBorg

open ProgLib

namespace Reader

/-- A packet as it arrives. -/
def view (s : Reader) (ip : InPacket) : Incoming := ⟨ip.type, ip.flags, ip.connId, ip.packId, s.inPacketToBuffer ip⟩

variable {al : Alloc} {s s' : Reader} {S : Mem} {n P base : Nat} {a : IbPtr} {l : List IbPtr} {h : Header}
  {d : Located} {p : WirePacket}

/-! ## Views under a layout-preserving change -/

theorem Laid.of_eq (hb : s'.bytes = s.bytes) (hd : s'.data = s.data) : ∀ {l : List IbPtr} {base : Nat},
    s.Laid S n base l → s'.Laid S n base l
  | [], _, h => h
  | a :: l, base, ⟨h₁, h₂, h₃, h₄⟩ => by
    refine ⟨h₁, ?_, ?_, Laid.of_eq hb hd h₄⟩
    · simpa only [Filled, hb] using h₂
    · simpa only [hb, hd] using h₃

theorem Laid.congr (hs : SameLayout s s') (h : s.Laid S n base l) : s'.Laid S n base l :=
  h.of_eq hs.bytes_eq hs.data_eq

/-- The offsets may move with the position. -/
theorem View.move {p : Option IbPtr} {Q : Nat} (v : View s S n P p base l) (hs : SameLayout s s')
    (hpos : Q = base + s'.headOffset l) (hle : ∀ a ∈ l.head?, (s'.ibs a).offset ≤ s.bytes a)
    (htail : ∀ a ∈ l.tail, (s'.ibs a).offset = (s.ibs a).offset) : View s' S n Q p base l := by
  refine ⟨hs.next_eq ▸ v.chain, v.laid.congr hs, v.aligned, hpos, fun a ha => ?_, fun a ha => ?_⟩
  · rw [hs.bytes_eq]
    exact hle a ha
  · rw [htail a ha, v.tail a ha]

/-- The parser is at `P`: at the head of the chain, or in the buffer after a head that is used up. -/
def Parsing (s : Reader) (S : Mem) (n P base : Nat) (l : List IbPtr) (ib1 : Option IbPtr) : Prop :=
  View s S n P s.inBuf base l ∧
    (ib1 = s.inBuf ∨ ∃ c, s.inBuf = some c ∧ (s.ibs c).offset = bufferSize ∧ ib1 = s.next c)

/-- The buffers that the parser has before it. -/
theorem Parsing.view {ib1 : Option IbPtr} (hp : Parsing s S n P base l ib1) :
    ∃ base' l', View s S n P ib1 base' l' ∧ l' <:+ l := by
  obtain ⟨v, rfl | ⟨c, hc, ho, rfl⟩⟩ := hp
  · exact ⟨base, l, v, List.suffix_refl l⟩
  · obtain ⟨l', rfl, -⟩ := Chain.of_some (hc ▸ v.chain)
    rw [hc] at v
    have hP : P = base + bufferSize := v.pos_eq.trans (by rw [ho])
    exact ⟨_, l', hP ▸ v.behind, List.suffix_cons c l'⟩

/-! ## Turns -/

/-- At the end of the chain nothing is left to parse. -/
theorem View.le_of_none (v : View s S n P none base l) : n ≤ P := by
  have hl : l = [] := by
    cases l with
    | nil => rfl
    | cons a l => cases v.chain.1
  subst hl
  have := v.pos
  have := v.laid.1
  simp only [headOffset] at *
  omega

theorem turn_wait (v : View s S n P (some a) base (a :: l)) (hn : n < P + sizeofPacket) :
    turn al (s, some a) = some (.done s) := by
  simp only [turn, readHeader_wait v hn]
  rw [if_neg (Nat.not_lt.2 v.offset_le)]

/-- Without a header before it the parser stops. -/
theorem Parsing.wait {ib1 : Option IbPtr} (hp : Parsing s S n P base l ib1) (hn : n < P + sizeofPacket) :
    turn al (s, ib1) = some (.done s) := by
  obtain ⟨base', l', v, -⟩ := hp.view
  cases ib1 with
  | none => rfl
  | some a =>
    obtain ⟨l₂, rfl, -⟩ := Chain.of_some v.chain
    exact turn_wait v hn

/-- The header at `P` starts with the four bytes of the stream. -/
theorem id_eq_long (hp : ∀ i < sizeofPacket, h.p i = S (P + i)) : h.hdr.id = S.long P :=
  Mem.long_congr fun k hk => by
    rw [Nat.zero_add]
    exact hp k (by simp only [sizeofPacket]; omega)

theorem turn_garbage (v : View s S n P (some a) base (a :: l)) (hn : P + sizeofPacket ≤ n)
    (hid : S.long P ≠ packetId) : turn al (s, some a) =
      some (s.badData a (if s.bytes a < (s.ibs a).offset + sizeofPacket then s.next a else none)) := by
  obtain ⟨h, hr, hp⟩ := readHeader_read v hn
  have hle := v.offset_le
  have hib2 : h.ib2 = if s.bytes a < (s.ibs a).offset + sizeofPacket then s.next a else none := by
    obtain ⟨hbc, ⟨h₁, -, h₂, -⟩ | ⟨ib2, h₁, h₂, h₃, -⟩⟩ := readHeader_cases hr
    · rw [if_neg (by omega), h₁]
    · rw [if_pos (by omega), h₁, h₂]
  simp only [turn, hr]
  rw [if_neg (Nat.not_lt.2 hle), if_pos (.inl (by rw [id_eq_long hp]; exact hid)), hib2]

/-- The two ranges of a packet are its data in the stream. -/
theorem payload_newPacket (sp : Spread s S P a l h d) :
    s.inPacketToBuffer (newPacket a h d) = S.slice (P + sizeofPacket) h.hdr.length.toNat := by
  have h₁ : (s.mem d.data1).slice 0 d.dataLen1 = S.slice (P + sizeofPacket) d.dataLen1 :=
    Mem.slice_congr fun i hi => by
      rw [Nat.zero_add]
      exact sp.data1 i (by omega)
  have h₂ : (s.mem d.data2).slice 0 d.dataLen2 = S.slice (P + sizeofPacket + d.dataLen1) d.dataLen2 :=
    Mem.slice_congr fun i hi => by
      rw [Nat.zero_add]
      exact sp.data2 (by omega) i (by omega)
  simp only [inPacketToBuffer, newPacket, h₁, h₂, ← Mem.slice_append, sp.len]

section Packet

variable (v : View s S n P (some a) base (a :: l)) (hS : S.Holds P p.bytes)
include v hS

/-- The header of a well-formed packet is read as it is. -/
theorem readHeader_packet (hn : P + sizeofPacket ≤ n) : ∃ h, s.readHeader a = some h ∧ h.hdr = p.hdr ∧
    h.size = p.size ∧ ∀ i < sizeofPacket, h.p i = S (P + i) := by
  obtain ⟨h, hr, hp⟩ := readHeader_read v hn
  rw [WirePacket.bytes, List.append_assoc, Mem.holds_append] at hS
  have hh : h.hdr = p.hdr := Packet.load_of_bytes fun i hi => by rw [hp i hi, hS.1 i hi]
  refine ⟨h, hr, hh, ?_, hp⟩
  have hl := p.length_eq
  have hf := p.pad_flag
  have hpl := p.pad_length
  have hpad : h.oddSize = p.pad.length := by
    simp only [Header.oddSize, hh]
    split
    · rename_i hc
      have := hf.1 hc
      omega
    · rename_i hc
      have : ¬p.payload.length % 2 = 1 := fun h => hc (hf.2 h)
      omega
  by_cases h0 : h.hdr.length.toNat = 0
  · rw [Header.size_of_zero h0, WirePacket.size]
    rw [hh] at h0
    omega
  · rw [Header.size_of_pos h0, WirePacket.size, hpad, hh, hl]

theorem turn_packet_wait (hn : n < P + p.size) : turn al (s, some a) = some (.done s) := by
  by_cases h14 : P + sizeofPacket ≤ n
  · obtain ⟨h, hr, hh, hsize, -⟩ := readHeader_packet v hS h14
    have hle := p.size_le
    have hlen : h.hdr.length.toNat ≤ bufferSize := by
      have := p.length_eq
      rw [hh]
      simp only [WirePacket.size, bufferSize] at *
      omega
    have hw := locate_wait v hr (by omega)
    simp only [turn, hr, hw]
    rw [if_neg (Nat.not_lt.2 v.offset_le), if_neg]
    rintro (h | h)
    · exact h (hh ▸ p.id_eq)
    · omega
  · exact turn_wait v (by omega)

/-- A complete packet is found, wherever it lies, and passes. -/
theorem turn_packet (al : Alloc) (hn : P + p.size ≤ n) (hP : P % 2 = 0) : ∃ h d, s.Found a d ∧ Spread s S P a l h d ∧
    h.hdr = p.hdr ∧ h.size = p.size ∧
    turn al (s, some a) = some (if al.inPacket s then .again (s.accept a h d) else .done s) := by
  have hle := p.size_le
  have hge := p.le_size
  obtain ⟨h, hr, hh, hsize, hp⟩ := readHeader_packet v hS (by simp only [sizeofPacket]; omega)
  obtain ⟨d, hd, sp⟩ := locate_found v hr (hsize.trans_le hle) (by omega) hP (by rw [hsize]; exact p.size_even)
  refine ⟨h, d, found_of_locate hr hd, sp, hh, hsize, ?_⟩
  have hlen : h.hdr.length.toNat ≤ bufferSize := by
    have := p.length_eq
    rw [hh]
    simp only [WirePacket.size, bufferSize] at *
    omega
  have hsum : s.packetSum h d = some 0xFFFF := by
    have hw : S.wordSum P (p.size / 2) = (Mem.ofList p.bytes).wordSum 0 (p.size / 2) :=
      Mem.wordSum_congr fun i hi => by
        rw [hS.ofList (by rw [WirePacket.length_bytes]; omega), Nat.zero_add]
    have hmod := p.wordSum_mod
    have hsumle := Mem.wordSum_le (Mem.ofList p.bytes) 0 (p.size / 2)
    rw [packetSum_eq hp sp (by omega) (by rw [hsize]; exact p.size_even), hsize, hw,
      completeChecksum_ok_iff, UInt32.toNat_ofNat', Nat.mod_eq_of_lt (show _ < 2 ^ 32 by omega)]
    exact hmod
  simp only [turn, hr, hd, hsum]
  rw [if_neg (Nat.not_lt.2 v.offset_le), if_neg]
  · rfl
  · rintro (h | h)
    · exact h (hh ▸ p.id_eq)
    · omega

omit v in
/-- The data of the packet is its payload. -/
theorem view_newPacket (sp : Spread s S P a l h d) (hh : h.hdr = p.hdr) :
    s.view (newPacket a h d) = p.incoming := by
  have hpay : S.slice (P + sizeofPacket) p.payload.length = p.payload := by
    rw [WirePacket.bytes, List.append_assoc, Mem.holds_append, Mem.holds_append] at hS
    exact hS.2.1.slice
  have hdata := payload_newPacket sp
  rw [hh, p.length_eq, hpay] at hdata
  rw [view, hdata]
  simp only [newPacket, WirePacket.incoming, hh]

end Packet

/-- **Behind an accepted packet** the parser stands at the next position of the stream. -/
theorem parsing_accept (v : View s S n P (some a) base (a :: l)) (hf : s.Found a d) (sp : Spread s S P a l h d) :
    ∃ base' l', l' <:+ a :: l ∧
      Parsing (s.accept a h d).1 S n (P + h.size) base' l' (s.accept a h d).2 := by
  have hs := accept_sameLayout s a h d
  have h₁ := v.pos_eq
  have h₂ := v.offset_le
  have h₃ := v.filled
  have hnext : ∀ {c : IbPtr}, d.ib2.getD a = c → (s.accept a h d).2 = (s.accept a h d).1.inBuf ∨
      ∃ c, (s.accept a h d).1.inBuf = some c ∧ ((s.accept a h d).1.ibs c).offset = bufferSize ∧
        (s.accept a h d).2 = (s.accept a h d).1.next c := by
    rintro c rfl
    rw [accept_ib1, accept_inBuf]
    split
    · rename_i hfull
      exact .inr ⟨_, rfl, hfull, (congrFun hs.next_eq _).symm⟩
    · exact .inl rfl
  cases hd : d.ib2 with
  | none =>
    have hone := sp.one hd
    have hle := (hf.one hd).2
    have hoff : ((s.accept a h d).1.ibs a).offset = (s.ibs a).offset + h.size := by
      rw [accept_offset, hd, Option.getD_none, if_pos rfl, hone]
      simp only [Filled, bufferSize] at *
      omega
    refine ⟨base, a :: l, List.suffix_refl _, ?_, hnext rfl⟩
    rw [accept_inBuf, hd, Option.getD_none]
    refine v.move hs ?_ ?_ ?_
    · rw [headOffset, hoff, h₁, Nat.add_assoc]
    · rintro b ⟨⟩
      rw [hoff]
      omega
    · intro b hb
      have hne : b ≠ a := fun he => (List.nodup_cons.1 v.chain.nodup).1 (he ▸ hb)
      rw [accept_offset, hd, Option.getD_none, if_neg hne]
  | some c =>
    obtain ⟨hhead, htwo⟩ := sp.two c hd
    have hle := hf.two c hd
    cases l with
    | nil => cases hhead
    | cons b r =>
      cases hhead
      obtain ⟨h₄, h₅, h₆, -, h₇⟩ := v.second
      have hoff : ((s.accept a h d).1.ibs c).offset = d.consumed + d.oddSize := by
        rw [accept_offset, hd, Option.getD_some, if_pos rfl, h₇]
        simp only [Filled, bufferSize] at *
        omega
      have v' := v.behind
      rw [v.next_eq] at v'
      refine ⟨base + bufferSize, c :: r, List.suffix_cons a _, ?_, hnext rfl⟩
      rw [accept_inBuf, hd, Option.getD_some]
      refine v'.move hs ?_ ?_ ?_
      · rw [headOffset, hoff, h₁]
        omega
      · rintro b ⟨⟩
        rw [hoff]
        exact hle
      · intro b hb
        have hne : b ≠ c := fun he => (List.nodup_cons.1 (List.nodup_cons.1 v.chain.nodup).2).1 (he ▸ hb)
        rw [accept_offset, hd, Option.getD_some, if_neg hne]

/-- Behind two bytes that were given up. -/
theorem parsing_advance (v : View s S n P s.inBuf base (a :: l)) (hlt : (s.ibs a).offset + 2 ≤ s.bytes a) :
    Parsing (s.advance a 2) S n (P + 2) base (a :: l) (some a) := by
  have hi : s.inBuf = some a := v.chain.1
  have h₁ := v.pos
  rw [hi] at v
  have h₃ := v.filled
  have hoff : ((s.advance a 2).ibs a).offset = (s.ibs a).offset + 2 := by
    rw [offset_advance, if_pos rfl]
    simp only [Filled, bufferSize] at *
    omega
  refine ⟨?_, .inl hi.symm⟩
  show View _ S n _ s.inBuf base _
  rw [hi]
  refine v.move (.advance ..) ?_ ?_ ?_
  · rw [headOffset, hoff, h₁, headOffset, Nat.add_assoc]
  · rintro b ⟨⟩
    rw [hoff]
    exact hlt
  · intro b hb
    have hne : b ≠ a := fun he => (List.nodup_cons.1 v.chain.nodup).1 (he ▸ hb)
    rw [offset_advance, if_neg hne]

end Reader

end AmiPiBorg
