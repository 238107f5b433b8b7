import AmiPiBorg.Protocol.Checksum
import AmiPiBorg.Protocol.Buffer

/-!
# Packets on the wire (`server/protocol.h`)

`Packet` is the header; `Packet.load` reads one from memory, as the source does by casting a pointer, and
`Packet.bytes` are the bytes that it occupies. A `WirePacket` is a complete well-formed packet: a header with the
start identifier, the payload, a pad byte after a payload of odd length, and a checksum that completes. `Incoming` is
what the other side sees of a packet, and `Incoming.ofMem` what it sees of one in memory.
-/

set_option autoImplicit false

namespace AmiPiBorg

open ProgLib

/-- `PACKET_ID`, the ASCII letters `AmPi`. -/
def packetId : UInt32 := 0x416d5069

/-- `PF_PAD_BYTE`. -/
def padByte : UInt8 := 0x01

/-- `PF_RESEND`. -/
def resend : UInt8 := 0x02

/-- `sizeof(struct Packet)`; the 68000 aligns its fields at even addresses. -/
abbrev sizeofPacket : Nat := 14

/-- `struct Packet`. -/
structure Packet where
  id : UInt32
  type : UInt8
  flags : UInt8
  connId : UInt16
  packId : UInt16
  checksum : UInt16
  length : UInt16
  deriving DecidableEq

namespace Packet

/-- The header at the start of a memory. -/
def load (m : Mem) : Packet :=
  { id := m.long 0, type := m 4, flags := m 5, connId := m.word 6, packId := m.word 8, checksum := m.word 10,
    length := m.word 12 }

/-- The bytes of a header. -/
def bytes (p : Packet) : List UInt8 :=
  be32 p.id ++ [p.type, p.flags] ++ be16 p.connId ++ be16 p.packId ++ be16 p.checksum ++ be16 p.length

/-- `PF_PAD_BYTE` is set. -/
def padded (p : Packet) : Bool := p.flags &&& padByte ≠ 0

@[simp] theorem length_bytes (p : Packet) : p.bytes.length = sizeofPacket := rfl

theorem load_congr {m m' : Mem} (h : ∀ i < sizeofPacket, m i = m' i) : load m = load m' := by
  simp only [sizeofPacket] at h
  simp only [load, mk.injEq]
  refine ⟨Mem.long_congr fun k hk => ?_, h 4 (by omega), h 5 (by omega), Mem.word_congr (h 6 (by omega)) (h 7 (by omega)),
    Mem.word_congr (h 8 (by omega)) (h 9 (by omega)), Mem.word_congr (h 10 (by omega)) (h 11 (by omega)),
    Mem.word_congr (h 12 (by omega)) (h 13 (by omega))⟩
  simpa using h k (by omega)

/-- **A memory that starts with the bytes of a header loads as that header.** -/
theorem load_of_bytes {m : Mem} {p : Packet} (h : ∀ i < sizeofPacket, p.bytes[i]? = some (m i)) : load m = p := by
  simp only [sizeofPacket] at h
  have hb : ∀ i (hi : i < 14), m i = p.bytes.get ⟨i, hi⟩ := by
    intro i hi
    have := h i hi
    rw [List.getElem?_eq_getElem (show i < p.bytes.length from hi)] at this
    exact (Option.some.inj this).symm
  obtain ⟨id, type, flags, connId, packId, checksum, length⟩ := p
  simp only [load, mk.injEq]
  exact ⟨long_of_be32 (hb 0 (by omega)) (hb 1 (by omega)) (hb 2 (by omega)) (hb 3 (by omega)), hb 4 (by omega),
    hb 5 (by omega), word_of_be16 (hb 6 (by omega)) (hb 7 (by omega)), word_of_be16 (hb 8 (by omega)) (hb 9 (by omega)),
    word_of_be16 (hb 10 (by omega)) (hb 11 (by omega)), word_of_be16 (hb 12 (by omega)) (hb 13 (by omega))⟩

end Packet

/-! ## Well-formed packets -/

/-- A well-formed packet, as it travels. -/
structure WirePacket where
  hdr : Packet
  payload : List UInt8
  /-- The pad byte, if there is one. -/
  pad : List UInt8
  id_eq : hdr.id = packetId
  length_eq : hdr.length.toNat = payload.length
  pad_flag : hdr.padded = true ↔ payload.length % 2 = 1
  pad_length : pad.length = payload.length % 2
  fits : sizeofPacket + payload.length + pad.length ≤ bufferSize
  checks : calculateChecksum (Mem.ofList (hdr.bytes ++ payload ++ pad)) (sizeofPacket + payload.length + pad.length) =
    some 0xFFFF

namespace WirePacket

/-- All bytes of the packet. -/
def bytes (p : WirePacket) : List UInt8 := p.hdr.bytes ++ p.payload ++ p.pad

/-- The number of its bytes. -/
def size (p : WirePacket) : Nat := sizeofPacket + p.payload.length + p.pad.length

@[simp] theorem length_bytes (p : WirePacket) : p.bytes.length = p.size := by
  simp [bytes, size, Nat.add_assoc]

theorem size_le (p : WirePacket) : p.size ≤ 4096 := p.fits

theorem le_size (p : WirePacket) : 14 ≤ p.size := by
  simp only [size, sizeofPacket]
  omega

theorem size_even (p : WirePacket) : p.size % 2 = 0 := by
  have := p.pad_length
  simp only [size, sizeofPacket]
  omega

/-- The words of the packet sum to `1` modulo `65535`. -/
theorem wordSum_mod (p : WirePacket) : (Mem.ofList p.bytes).wordSum 0 (p.size / 2) % 65535 = 1 := by
  have he := p.size_even
  have hl := p.size_le
  have h : calculateChecksum (Mem.ofList p.bytes) p.size = some 0xFFFF := p.checks
  have hle := Mem.wordSum_le (Mem.ofList p.bytes) 0 (p.size / 2)
  rw [calculateChecksum, addToChecksum_even he (by omega), Option.bind_some, completeChecksum_ok_iff, UInt32.zero_add,
    UInt32.toNat_ofNat', Nat.mod_eq_of_lt (show _ < 2 ^ 32 by omega)] at h
  exact h

end WirePacket

/-- What a connection sees of a packet. -/
structure Incoming where
  type : UInt8
  flags : UInt8
  connId : UInt16
  packId : UInt16
  data : List UInt8
  deriving DecidableEq

/-- A packet as it should arrive. -/
def WirePacket.incoming (p : WirePacket) : Incoming := ⟨p.hdr.type, p.hdr.flags, p.hdr.connId, p.hdr.packId, p.payload⟩

/-! ## Packets in memory -/

/-- The packet at the start of a memory, as it is seen. -/
def Incoming.ofMem (m : Mem) : Incoming :=
  let p := Packet.load m
  ⟨p.type, p.flags, p.connId, p.packId, m.slice sizeofPacket p.length.toNat⟩

/-- The bytes that a packet with this data takes. -/
def Incoming.size (a : Incoming) : Nat := sizeofPacket + a.data.length + a.data.length % 2

theorem Incoming.length_data_ofMem (m : Mem) : (Incoming.ofMem m).data.length = (Packet.load m).length.toNat :=
  Mem.length_slice ..

theorem Packet.bytes_load (m : Mem) : (Packet.load m).bytes = m.slice 0 sizeofPacket := by
  simp only [Packet.bytes, Packet.load, be16_word, be32_long]
  rfl

/-- Without its checksum, a packet in memory does not depend on the checksum's bytes. -/
theorem Packet.load_congr_checksum {m m' : Mem} (h : ∀ i < sizeofPacket, i ≠ 10 → i ≠ 11 → m' i = m i) :
    load m' = { load m with checksum := (load m').checksum } := by
  simp only [sizeofPacket] at h
  simp only [load, mk.injEq, true_and]
  refine ⟨Mem.long_congr fun k hk => ?_, h 4 (by omega) (by omega) (by omega), h 5 (by omega) (by omega) (by omega),
    Mem.word_congr (h 6 (by omega) (by omega) (by omega)) (h 7 (by omega) (by omega) (by omega)),
    Mem.word_congr (h 8 (by omega) (by omega) (by omega)) (h 9 (by omega) (by omega) (by omega)),
    Mem.word_congr (h 12 (by omega) (by omega) (by omega)) (h 13 (by omega) (by omega) (by omega))⟩
  simpa using h k (by omega) (by omega) (by omega)

theorem Incoming.ofMem_congr {m m' : Mem}
    (h : ∀ i < (Incoming.ofMem m).size, i ≠ 10 → i ≠ 11 → m' i = m i) : Incoming.ofMem m' = Incoming.ofMem m := by
  have hsize : (Incoming.ofMem m).size = 14 + (Packet.load m).length.toNat + (Packet.load m).length.toNat % 2 := by
    rw [size, length_data_ofMem]
  rw [hsize] at h
  generalize hL : (Packet.load m).length.toNat = L at h
  have h14 : ∀ i < sizeofPacket, i < 14 + L + L % 2 := fun i (hi : i < 14) => by omega
  have hl : Packet.load m' = { Packet.load m with checksum := (Packet.load m').checksum } :=
    Packet.load_congr_checksum fun i hi h₀ h₁ => h i (h14 i hi) h₀ h₁
  simp only [ofMem]
  rw [hl]
  simp only [mk.injEq, true_and, hL]
  exact Mem.slice_congr fun i hi => h _ (by simp only [sizeofPacket]; omega) (by simp only [sizeofPacket]; omega)
    (by simp only [sizeofPacket]; omega)

/-- **A checked packet in memory** is a well-formed packet. -/
theorem WirePacket.exists_ofMem {m : Mem} (hid : (Packet.load m).id = packetId)
    (hflag : (Packet.load m).padded = true ↔ (Incoming.ofMem m).data.length % 2 = 1)
    (hfits : (Incoming.ofMem m).size ≤ bufferSize)
    (hcheck : calculateChecksum m (Incoming.ofMem m).size = some 0xFFFF) :
    ∃ p : WirePacket, p.bytes = m.slice 0 (Incoming.ofMem m).size ∧ p.incoming = Incoming.ofMem m := by
  have hlen := Incoming.length_data_ofMem m
  let payload := (Incoming.ofMem m).data
  let pad := m.slice (sizeofPacket + payload.length) (payload.length % 2)
  have hbytes : (Packet.load m).bytes ++ payload ++ pad = m.slice 0 (Incoming.ofMem m).size := by
    have hp : payload = m.slice (0 + sizeofPacket) payload.length := by
      show m.slice sizeofPacket _ = _
      rw [hlen, Nat.zero_add]
    have hs : m.slice 0 (Incoming.ofMem m).size = m.slice 0 sizeofPacket ++ m.slice (0 + sizeofPacket) payload.length ++
        m.slice (0 + (sizeofPacket + payload.length)) (payload.length % 2) := by
      rw [Incoming.size, Mem.slice_append, Mem.slice_append]
    rw [hs, ← hp, Packet.bytes_load, Nat.zero_add]
  have hpad : pad.length = payload.length % 2 := Mem.length_slice ..
  refine ⟨⟨Packet.load m, payload, pad, hid, hlen.symm, hflag, hpad, ?_, ?_⟩, hbytes, rfl⟩
  · rw [hpad]
    exact hfits
  · have heven : (Incoming.ofMem m).size % 2 = 0 := by
      simp only [Incoming.size, sizeofPacket]
      omega
    simp only [bufferSize] at hfits
    rw [hpad, hbytes]
    show calculateChecksum _ (Incoming.ofMem m).size = _
    rw [← hcheck]
    refine calculateChecksum_congr heven (by omega) fun i hi => ?_
    rw [Mem.ofList_slice m 0 hi, Nat.zero_add]

/-! ## Sealing -/

section Seal

variable (type : UInt8) (connId packId : UInt16) (payload : List UInt8)

/-- The header of a packet, with the checksum `c`. -/
def sealHdr (c : UInt16) : Packet :=
  { id := packetId, type := type, flags := if payload.length % 2 = 1 then padByte else 0, connId := connId,
    packId := packId, checksum := c, length := UInt16.ofNat payload.length }

/-- The pad byte. -/
def sealPad : List UInt8 := List.replicate (payload.length % 2) 0

/-- The packet with the checksum `c`. -/
def sealBytes (c : UInt16) : List UInt8 := (sealHdr type connId packId payload c).bytes ++ payload ++ sealPad payload

/-- The checksum of the packet. -/
def sealSum : UInt16 :=
  (calculateChecksum (Mem.ofList (sealBytes type connId packId payload 0))
    (sizeofPacket + payload.length + (sealPad payload).length)).getD 0

theorem padded_sealHdr (c : UInt16) :
    (sealHdr type connId packId payload c).padded = true ↔ payload.length % 2 = 1 := by
  unfold sealHdr Packet.padded
  split <;> simp_all [padByte]

/-- Only the checksum's own two bytes depend on it. -/
theorem sealBytes_get (c : UInt16) {i : Nat} (h₀ : i ≠ 10) (h₁ : i ≠ 11) :
    (sealBytes type connId packId payload c)[i]? = (sealBytes type connId packId payload 0)[i]? := by
  simp only [sealBytes, List.append_assoc, List.getElem?_append, Packet.length_bytes, sizeofPacket]
  split
  · rename_i hi
    simp only [sealHdr, Packet.bytes, be16, be32, List.cons_append, List.nil_append]
    interval_cases i <;> first | rfl | omega
  · rfl

theorem sealBytes_word (c : UInt16) : (Mem.ofList (sealBytes type connId packId payload c)).word 10 = c :=
  word_of_be16 rfl rfl

theorem sealBytes_wordSum_pos {n : Nat} (hn : 0 < n) :
    0 < (Mem.ofList (sealBytes type connId packId payload 0)).wordSum 0 n := by
  obtain ⟨n, rfl⟩ : ∃ k, n = k + 1 := ⟨n - 1, by omega⟩
  have hw : (Mem.ofList (sealBytes type connId packId payload 0)).word 0 = 0x416d :=
    word_of_be16 (show UInt8.ofNat (packetId.toNat / 16777216) = _ by decide)
      (show UInt8.ofNat (packetId.toNat / 65536 % 256) = _ by decide)
  rw [Mem.wordSum, hw]
  exact Nat.add_pos_left (by decide) _

/-- **A sealed packet is well formed.** -/
def WirePacket.sealed (h : payload.length ≤ 4082) : WirePacket where
  hdr := sealHdr type connId packId payload (sealSum type connId packId payload)
  payload := payload
  pad := sealPad payload
  id_eq := rfl
  length_eq := by
    show (UInt16.ofNat payload.length).toNat = _
    rw [UInt16.toNat_ofNat', Nat.mod_eq_of_lt (show _ < 2 ^ 16 by omega)]
  pad_flag := padded_sealHdr ..
  pad_length := List.length_replicate
  fits := by
    simp only [sizeofPacket, bufferSize, sealPad, List.length_replicate]
    omega
  checks := by
    have hp : (sealPad payload).length = payload.length % 2 := List.length_replicate
    have hlen : (sizeofPacket + payload.length + (sealPad payload).length) % 2 = 0 ∧
        sizeofPacket + payload.length + (sealPad payload).length < 65536 := by
      simp only [sizeofPacket, hp]
      omega
    obtain ⟨c, hc, hm⟩ := calculateChecksum_store (k := 5) hlen.1 hlen.2
      (by simp only [sizeofPacket, hp]; omega) (sealBytes_word type connId packId payload 0)
      (sealBytes_wordSum_pos type connId packId payload (by simp only [sizeofPacket, hp]; omega))
    have hs : sealSum type connId packId payload = c := by simp only [sealSum, hc, Option.getD_some]
    rw [hs]
    refine hm _ (sealBytes_word type connId packId payload c) fun i _ h₀ h₁ => ?_
    show Mem.ofList (sealBytes type connId packId payload c) i = _
    simp only [Mem.ofList, List.getD_eq_getElem?_getD, sealBytes_get type connId packId payload c h₀ h₁]

theorem WirePacket.size_sealed (h : payload.length ≤ 4082) :
    (WirePacket.sealed type connId packId payload h).size = 14 + payload.length + payload.length % 2 := by
  simp only [WirePacket.size, WirePacket.sealed, sealPad, List.length_replicate, sizeofPacket]

end Seal

end AmiPiBorg
