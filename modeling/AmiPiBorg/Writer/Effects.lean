import AmiPiBorg.Writer.Defs

/-!
# What the writer's operations change

* `storeAt_eq`: a store changes the bytes of one buffer.
* `Shows m a`: the memory holds a packet that the writer began and the caller filled in, seen as `a`. It depends on the
  bytes that the packet takes only (`Shows.congr`), and not on its checksum.
* `addPacket_spec`, `fill_spec`: what the writer and the caller leave behind for a new packet.
-/

set_option autoImplicit false

namespace AmiPiBorg

open ProgLib

namespace Writer

variable {s : Writer} {ob ob' : ObPtr} {b b' : BufPtr} {p q : Addr} {bs : List UInt8} {v : OutBuffer} {w : Buffer}

/-! ## Field updates -/

theorem obs_setOb (s : Writer) (ob ob' : ObPtr) (v : OutBuffer) :
    (s.setOb ob v).obs ob' = if ob' = ob then v else s.obs ob' := Function.update_apply ..

@[simp] theorem obs_setOb_self : (s.setOb ob v).obs ob = v := Function.update_self ..

theorem obs_setOb_of_ne (h : ob' ≠ ob) : (s.setOb ob v).obs ob' = s.obs ob' := Function.update_of_ne h ..

theorem bufs_setBuf (s : Writer) (b b' : BufPtr) (w : Buffer) :
    (s.setBuf b w).bufs b' = if b' = b then w else s.bufs b' := Function.update_apply ..

@[simp] theorem bufs_setBuf_self : (s.setBuf b w).bufs b = w := Function.update_self ..

theorem bufs_setBuf_of_ne (h : b' ≠ b) : (s.setBuf b w).bufs b' = s.bufs b' := Function.update_of_ne h ..

@[simp] theorem bufs_setOb : (s.setOb ob v).bufs = s.bufs := rfl

@[simp] theorem obs_setBuf : (s.setBuf b w).obs = s.obs := rfl

@[simp] theorem setBuf_setBuf {w' : Buffer} : (s.setBuf b w).setBuf b w' = s.setBuf b w' := by
  unfold setBuf
  simp only [Function.update_idem]

theorem setBuf_self (s : Writer) (b : BufPtr) : s.setBuf b ⟨(s.bufs b).offset, (s.bufs b).data⟩ = s := by
  unfold setBuf
  rw [Function.update_eq_self]

theorem storeAt_eq (s : Writer) (b : BufPtr) (i : Nat) (bs : List UInt8) :
    s.storeAt (b, i) bs = s.setBuf b ⟨(s.bufs b).offset, (s.bufs b).data.store i bs⟩ := rfl

/-! ## Packets in memory -/

/-- A packet as the writer keeps it until it is sent: seen as `a`, with the pad flag of its length. -/
structure Shows (m : Mem) (a : Incoming) : Prop where
  id : (Packet.load m).id = packetId
  view : Incoming.ofMem m = a
  pad : a.flags = if a.data.length % 2 = 1 then padByte else 0

namespace Shows

variable {m m' : Mem} {a : Incoming}

theorem length (h : Shows m a) : (Packet.load m).length.toNat = a.data.length := by
  rw [← h.view, Incoming.length_data_ofMem]

theorem sizeofPacket_le (a : Incoming) : sizeofPacket ≤ a.size := by
  unfold Incoming.size
  omega

theorem size_even (a : Incoming) : a.size % 2 = 0 := by
  unfold Incoming.size
  simp only [sizeofPacket]
  omega

/-- **A packet is in the bytes that it takes**, without those of its checksum. -/
theorem congr (h : Shows m a) (hm : ∀ i < a.size, i ≠ 10 → i ≠ 11 → m' i = m i) : Shows m' a := by
  have hl : Packet.load m' = { Packet.load m with checksum := (Packet.load m').checksum } :=
    Packet.load_congr_checksum fun i hi h₀ h₁ => hm i (Nat.lt_of_lt_of_le hi (sizeofPacket_le a)) h₀ h₁
  refine ⟨?_, ?_, h.pad⟩
  · rw [hl]
    exact h.id
  · rw [← h.view]
    apply Incoming.ofMem_congr
    rw [h.view]
    exact hm

theorem padded (h : Shows m a) : (Packet.load m).padded = true ↔ a.data.length % 2 = 1 := by
  have hf : (Packet.load m).flags = a.flags := by
    rw [← h.view]
    rfl
  unfold Packet.padded
  rw [hf, h.pad]
  split <;> simp_all [padByte]

theorem wordSum_pos (h : Shows m a) {n : Nat} (hn : 0 < n) : 0 < m.wordSum 0 n := by
  obtain ⟨n, rfl⟩ : ∃ k, n = k + 1 := ⟨n - 1, by omega⟩
  have hid : be32 (m.long 0) = be32 packetId := congrArg be32 h.id
  rw [be32_long] at hid
  have h0 : m 0 = 0x41 := (List.cons.inj hid).1
  rw [Mem.wordSum, Mem.toNat_word, h0]
  apply Nat.add_pos_left
  exact Nat.add_pos_left (by decide) _

end Shows

/-! ## Packets that are sent -/

/-- What goes out for the packet `a` at the start of a memory: its bytes, with the checksum that is found for them. -/
def sentBytes (m : Mem) (a : Incoming) : Option (List UInt8) :=
  (calculateChecksum m a.size).map fun c => (m.store 10 (be16 c)).slice 0 a.size

/-- **The bytes of a packet** are known from what it shows, but for its checksum and its pad byte. -/
theorem Shows.bytes_eq {m m' : Mem} {a : Incoming} (h : Shows m a) (h' : Shows m' a) (h₁₀ : m.word 10 = m'.word 10)
    {i : Nat} (hi : i < sizeofPacket + a.data.length) : m i = m' i := by
  have hm := h.view
  have hm' := h'.view
  have hl : (Packet.load m).length = (Packet.load m').length := UInt16.toNat_inj.1 (h.length.trans h'.length.symm)
  unfold Incoming.ofMem at hm hm'
  rw [← hm', Incoming.mk.injEq] at hm
  obtain ⟨htype, hflags, hconn, hpack, hdata⟩ := hm
  obtain hlt | hge := Nat.lt_or_ge i sizeofPacket
  · have hload : Packet.load m = Packet.load m' := by
      rw [show Packet.load m = ⟨_, _, _, _, _, _, _⟩ from rfl, show Packet.load m' = ⟨_, _, _, _, _, _, _⟩ from rfl,
        Packet.mk.injEq]
      exact ⟨h.id.trans h'.id.symm, htype, hflags, hconn, hpack, h₁₀, hl⟩
    have hs : m.slice 0 sizeofPacket = m'.slice 0 sizeofPacket := by rw [← Packet.bytes_load, hload, Packet.bytes_load]
    have hget := Mem.eq_of_slice_eq hs hlt
    rwa [Nat.zero_add] at hget
  · rw [h.length, h'.length] at hdata
    have hget := Mem.eq_of_slice_eq hdata (show i - sizeofPacket < a.data.length by omega)
    rwa [Nat.add_sub_cancel' hge] at hget

theorem sentBytes_congr {m m' : Mem} {a : Incoming} (ha : a.size ≤ bufferSize) (h : ∀ i < a.size, m i = m' i) :
    sentBytes m a = sentBytes m' a := by
  have heven := Shows.size_even a
  simp only [bufferSize] at ha
  unfold sentBytes
  rw [calculateChecksum_congr heven (by omega) h]
  congr 1
  funext c
  refine Mem.slice_congr fun i hi => ?_
  simp only [Nat.zero_add, Mem.store]
  split
  · rfl
  · exact h i hi

/-- What goes out depends on the pad byte, if there is one, and on nothing else. -/
theorem sentBytes_eq {m m' : Mem} {a : Incoming} (ha : a.size ≤ bufferSize) (h : Shows m a) (h' : Shows m' a)
    (h₁₀ : m.word 10 = m'.word 10) (hpad : a.data.length % 2 = 1 →
      m (sizeofPacket + a.data.length) = m' (sizeofPacket + a.data.length)) : sentBytes m a = sentBytes m' a := by
  refine sentBytes_congr ha fun i hi => ?_
  obtain hlt | hge := Nat.lt_or_ge i (sizeofPacket + a.data.length)
  · exact h.bytes_eq h' h₁₀ hlt
  · have hodd : a.data.length % 2 = 1 ∧ i = sizeofPacket + a.data.length := by
      unfold Incoming.size at hi
      omega
    rw [hodd.2]
    exact hpad hodd.1

/-- The pad byte goes out as it is. -/
theorem sentBytes_pad {m : Mem} {a : Incoming} {bs : List UInt8} (h : sentBytes m a = some bs)
    (hodd : a.data.length % 2 = 1) : bs[sizeofPacket + a.data.length]? = some (m (sizeofPacket + a.data.length)) := by
  obtain ⟨c, -, rfl⟩ := Option.map_eq_some_iff.1 h
  have hlt : sizeofPacket + a.data.length < a.size := by
    unfold Incoming.size
    omega
  rw [Mem.getElem?_slice, if_pos hlt, Nat.zero_add, Mem.store_of_ge]
  simp only [length_be16, sizeofPacket]
  omega

theorem length_sentBytes {m : Mem} {a : Incoming} {bs : List UInt8} (h : sentBytes m a = some bs) :
    bs.length = a.size := by
  obtain ⟨c, -, rfl⟩ := Option.map_eq_some_iff.1 h
  exact Mem.length_slice ..

/-! ## New packets -/

/-- The fields of a header, one by one. -/
theorem load_from_ {m : Mem} {off : Nat} : Packet.load (m.from_ off) =
    ⟨m.long off, m (off + 4), m (off + 5), m.word (off + 6), m.word (off + 8), m.word (off + 10), m.word (off + 12)⟩ :=
  rfl

/-- **What `APB_AllocPacketWithId` leaves behind**: a packet without checksum at the end of the buffer. -/
theorem addPacket_spec (s : Writer) (ob : ObPtr) {length : Nat} (packId : UInt16) (h14 : sizeofPacket ≤ length)
    (hle : length ≤ bufferSize) : ∃ (d : Mem) (a : Incoming),
    s.addPacket ob length packId =
      ((s.setBuf (s.obs ob).buf ⟨(s.bufs (s.obs ob).buf).offset + a.size, d⟩).setOb ob
        { s.obs ob with packetCount := ((s.obs ob).packetCount + 1) % 65536 },
        ⟨ob, ((s.obs ob).buf, (s.bufs (s.obs ob).buf).offset), false⟩) ∧
      (∀ i < (s.bufs (s.obs ob).buf).offset, d i = (s.bufs (s.obs ob).buf).data i) ∧
      Shows (d.from_ (s.bufs (s.obs ob).buf).offset) a ∧
      (d.from_ (s.bufs (s.obs ob).buf).offset).word 10 = 0 ∧ a.packId = packId ∧
      a.data.length = length - sizeofPacket := by
  generalize hb : (s.obs ob).buf = b
  generalize hoff : (s.bufs b).offset = off
  simp only [sizeofPacket, bufferSize] at h14 hle
  let len : UInt16 := UInt16.ofNat (length - 14)
  have hlen : len.toNat = length - 14 := by
    rw [UInt16.toNat_ofNat']
    exact Nat.mod_eq_of_lt (by omega)
  let d₀ : Mem := (((((s.bufs b).data.store off (be32 packetId)).store (off + 8) (be16 packId)).store (off + 5)
    [0]).store (off + 12) (be16 len)).store (off + 10) (be16 0)
  -- the pad flag, and the byte after the pad byte, of an odd length
  let d : Mem := if length % 2 = 1 then (d₀.store (off + 5) [padByte]).store (off + length + 1) [0] else d₀
  have hload : ∀ m : Mem, m = d₀ ∨ m = (d₀.store (off + 5) [padByte]).store (off + length + 1) [0] →
      m.long off = packetId ∧ m.word (off + 8) = packId ∧ m.word (off + 10) = 0 ∧ m.word (off + 12) = len := by
    rintro m (rfl | rfl)
    · simp (disch := simp only [length_be16, length_be32, List.length_cons, List.length_nil]; omega) only [d₀,
        Mem.long_store_of_disjoint, Mem.word_store_of_disjoint, Mem.long_store, Mem.word_store, and_self]
    · simp (disch := simp only [length_be16, length_be32, List.length_cons, List.length_nil]; omega) only [d₀,
        Mem.long_store_of_disjoint, Mem.word_store_of_disjoint, Mem.long_store, Mem.word_store, and_self]
  have hd : d.long off = packetId ∧ d.word (off + 8) = packId ∧ d.word (off + 10) = 0 ∧ d.word (off + 12) = len := by
    apply hload
    by_cases ho : length % 2 = 1
    · exact .inr (if_pos ho)
    · exact .inl (if_neg ho)
  have hflag : d (off + 5) = if length % 2 = 1 then padByte else 0 := by
    by_cases ho : length % 2 = 1
    · simp only [d, if_pos ho]
      rw [Mem.store_of_lt (by omega)]
      simp [Mem.store]
    · simp only [d, if_neg ho, d₀]
      rw [Mem.store_of_lt (by omega), Mem.store_of_lt (by omega)]
      simp [Mem.store]
  have hdata : (Incoming.ofMem (d.from_ off)).data.length = length - 14 := by
    rw [Incoming.length_data_ofMem, load_from_]
    show (d.word (off + 12)).toNat = _
    rw [hd.2.2.2, hlen]
  have hsize : (Incoming.ofMem (d.from_ off)).size = length + length % 2 := by
    simp only [Incoming.size, hdata, sizeofPacket]
    omega
  refine ⟨d, Incoming.ofMem (d.from_ off), ?_, ?_, ⟨hd.1, rfl, ?_⟩, hd.2.2.1, hd.2.1, hdata⟩
  · rw [hsize]
    unfold addPacket
    by_cases ho : length % 2 = 1
    · simp only [hb, hoff, d, ho, if_true]
      simp only [storeAt, setBuf, setOb, Function.update_self, Function.update_idem, hoff]
      rfl
    · simp only [hb, hoff, d, if_neg ho, show length % 2 = 0 by omega, Nat.add_zero]
      simp only [storeAt, setBuf, setOb, Function.update_self, Function.update_idem, hoff]
      rfl
  · intro i hi
    by_cases ho : length % 2 = 1
    · simp only [d, if_pos ho, d₀]
      simp (disch := omega) only [Mem.store_of_lt]
    · simp only [d, if_neg ho, d₀]
      simp (disch := omega) only [Mem.store_of_lt]
  · show d (off + 5) = _
    rw [hflag, hdata, show (length - 14) % 2 = length % 2 by omega]

/-- **What the caller makes of a new packet**: its type, its connection and its payload. -/
theorem fill_spec {a : Incoming} (h : Shows (s.mem p) a) (h10 : (s.mem p).word 10 = 0) (type : UInt8) (connId : UInt16)
    {payload : List UInt8} (hlen : payload.length = a.data.length) : ∃ d : Mem,
    s.fill p type connId payload = s.setBuf p.1 ⟨(s.bufs p.1).offset, d⟩ ∧
      (∀ i, i < p.2 ∨ p.2 + a.size ≤ i → d i = (s.bufs p.1).data i) ∧
      Shows (d.from_ p.2) ⟨type, a.flags, connId, a.packId, payload⟩ ∧ (d.from_ p.2).word 10 = 0 := by
  obtain ⟨b, off⟩ := p
  let d : Mem := (((s.bufs b).data.store (off + 4) [type]).store (off + 6) (be16 connId)).store (off + 14) payload
  have hm : ∀ i < 14, i ≠ 4 → i ≠ 6 → i ≠ 7 → d (off + i) = (s.bufs b).data (off + i) := by
    intro i hi h₄ h₆ h₇
    have hs : ∀ m : Mem, m.store (off + 4) [type] (off + i) = m (off + i) := by
      intro m
      rcases Nat.lt_or_ge i 4 with h | h
      · exact Mem.store_of_lt (by omega)
      · apply Mem.store_of_ge
        simp only [List.length_cons, List.length_nil]
        omega
    simp only [d]
    rw [Mem.store_of_lt (by omega)]
    rcases Nat.lt_or_ge i 6 with h | h
    · rw [Mem.store_of_lt (by omega), hs]
    · rw [Mem.store_of_ge (by simp only [length_be16]; omega), hs]
  have hw : ∀ i, i + 1 < 14 → 8 ≤ i → d.word (off + i) = (s.bufs b).data.word (off + i) := fun i hi h₈ =>
    Mem.word_congr (hm i (by omega) (by omega) (by omega) (by omega))
      (hm (i + 1) hi (by omega) (by omega) (by omega))
  have hid : d.long off = (s.bufs b).data.long off := Mem.long_congr fun k hk => hm k (by omega) (by omega) (by omega)
    (by omega)
  have htype : d (off + 4) = type := by
    simp only [d]
    rw [Mem.store_of_lt (by omega), Mem.store_of_lt (by omega)]
    simp [Mem.store]
  have hconn : d.word (off + 6) = connId := by
    simp only [d]
    rw [Mem.word_store_of_disjoint (.inl (by omega)), Mem.word_store]
  have hview := h.view
  have hlength := h.length
  unfold Incoming.ofMem at hview
  refine ⟨d, ?_, ?_, ⟨?_, ?_, ?_⟩, (hw 10 (by omega) (by omega)).trans h10⟩
  · unfold fill
    simp only [storeAt_eq, setBuf_setBuf, bufs_setBuf_self]
    rfl
  · rintro i (hi | hi)
    · simp only [d]
      simp (disch := omega) only [Mem.store_of_lt]
    · simp only [Incoming.size, sizeofPacket] at hi
      simp only [d]
      rw [Mem.store_of_ge (by omega), Mem.store_of_ge (by simp only [length_be16]; omega), Mem.store_of_ge]
      simp only [List.length_cons, List.length_nil]
      omega
  · rw [load_from_]
    exact hid.trans h.id
  · unfold Incoming.ofMem
    rw [load_from_]
    simp only [Incoming.mk.injEq]
    refine ⟨htype, ?_, hconn, ?_, ?_⟩
    · rw [← hview]
      exact hm 5 (by omega) (by omega) (by omega) (by omega)
    · rw [← hview]
      exact hw 8 (by omega) (by omega)
    · have hl : (d.word (off + 12)).toNat = payload.length := by
        rw [hw 12 (by omega) (by omega), hlen, ← hlength]
        rfl
      rw [hl, Mem.slice_from_]
      exact Mem.slice_store _ (off + 14) payload
  · rw [h.pad, hlen]

end Writer

end AmiPiBorg
