import AmiPiBorg.Lib.Chain
import AmiPiBorg.Protocol.Packet

/-!
# The packet reader (`server/packetreader.c`)

The reader's objects live in heaps that are functions from pointers; an object pool is the list of the pointers that
are in use. Releasing an object takes its pointer off that list and leaves its memory as it is, as the source reads
`ib_Next` of a buffer that it has just released.

* `appendBuffer` hangs a new `InBuffer` at the end of the chain from `pr_InBuf`, unless the buffer is there already.
* `turn` is one turn of the outer loop of `APB_ProcessBuffer`: `readHeader` (lines 173 to 208), `locate` (220 to 288),
  `packetSum` (290 to 302), and then `accept` (313 to 351) or `badData` (353 to 369).
* `releaseInPacket`, `dequeueInPacket` and `inPacketToBuffer` are what the connections do with a packet.

Lengths and counters are natural numbers, reduced modulo `65536` where the source's `UWORD` can wrap.
-/

set_option autoImplicit false

namespace AmiPiBorg

open ProgLib

/-- A pointer to a `struct InBuffer`. -/
abbrev IbPtr := Nat

/-- `struct InBuffer`. -/
structure InBuffer where
  buf : BufPtr
  next : Option IbPtr
  offset : Nat
  packetCount : Nat
  canRelease : Bool
  deriving Inhabited

/-- `struct InPacket`. -/
structure InPacket where
  inBuf : IbPtr
  type : UInt8
  flags : UInt8
  connId : UInt16
  packId : UInt16
  data1Length : Nat
  data1 : Option Addr
  data2Length : Nat
  data2 : Option Addr
  /-- Ghost: the second buffer that the packet was counted into, if any. No code reads it. -/
  inBuf2 : Option IbPtr
  deriving DecidableEq

/-- `struct PacketReader`, with the objects that it works on. -/
structure Reader where
  inBuf : Option IbPtr
  queue : List InPacket
  queueSize : Nat
  ibs : IbPtr → InBuffer
  bufs : BufPtr → Buffer
  /-- The `InBuffer` objects in use. -/
  ibUse : List IbPtr
  /-- The `Buffer` objects in use. -/
  bufUse : List BufPtr

namespace Reader

/-- `BUF_BYTES`. -/
def bytes (s : Reader) (ib : IbPtr) : Nat := (s.bufs (s.ibs ib).buf).offset

/-- The data of the buffer of `ib`. -/
def data (s : Reader) (ib : IbPtr) : Mem := (s.bufs (s.ibs ib).buf).data

/-- The memory at a pointer into a buffer. Nothing is read at a null pointer: its length is always zero. -/
def mem (s : Reader) : Option Addr → Mem
  | none => fun _ => 0
  | some a => (s.bufs a.1).data.from_ a.2

/-- The link field of every `InBuffer`. -/
def next (s : Reader) (ib : IbPtr) : Option IbPtr := (s.ibs ib).next

/-- The record `v` stored at `ib`. -/
def setIb (s : Reader) (ib : IbPtr) (v : InBuffer) : Reader := { s with ibs := Function.update s.ibs ib v }

/-- What the object pools answer: an object that is not in use, or none, and whether there is an `InPacket`. -/
structure Alloc where
  inBuffer : Reader → Option IbPtr
  inPacket : Reader → Bool
  buffer : Reader → Option BufPtr
  inBuffer_fresh : ∀ s p, inBuffer s = some p → p ∉ s.ibUse
  buffer_fresh : ∀ s b, buffer s = some b → b ∉ s.bufUse

/-! ## `APB_AppendBuffer` -/

/-- A turn of the first loop, which looks for `buf` on the chain. -/
def findTurn (s : Reader) (buf : BufPtr) : Option IbPtr → Option (Turn (Option IbPtr) Bool)
  | none => some (.done false)
  | some ib2 => some (if (s.ibs ib2).buf = buf then .done true else .again (s.next ib2))

/-- `ib_CanRelease = TRUE`. -/
def allowRelease (s : Reader) (ib : IbPtr) : Reader := s.setIb ib { s.ibs ib with canRelease := true }

/-- A turn of the second loop, which goes to the end of the chain and sets `ib_CanRelease` on its way. -/
def markTurn : Reader × IbPtr → Option (Turn (Reader × IbPtr) (Reader × IbPtr))
  | (s, ib2) => some (match (s.ibs ib2).next with
    | none => .done (s, ib2)
    | some q => .again (s.allowRelease q, q))

/-- A new `InBuffer` for `buf`. -/
def newInBuffer (s : Reader) (ib : IbPtr) (buf : BufPtr) : Reader :=
  { s.setIb ib { buf := buf, next := none, offset := 0, packetCount := 0, canRelease := false } with
    ibUse := ib :: s.ibUse }

/-- `ib2->ib_Next = ib`. -/
def setNext (s : Reader) (ib2 ib : IbPtr) : Reader := s.setIb ib2 { s.ibs ib2 with next := some ib }

/-- `APB_AppendBuffer`. -/
def appendBuffer (fuel : Nat) (al : Alloc) (s : Reader) (buf : BufPtr) : Option (Reader × Bool) :=
  (Loop.run (s.findTurn buf) fuel s.inBuf).bind fun
    | true => some (s, true)
    | false =>
      match al.inBuffer s with
      | none => some (s, false)
      | some ib =>
        match s.inBuf with
        | none => some ({ s.newInBuffer ib buf with inBuf := some ib }, true)
        | some p =>
          (Loop.run markTurn fuel ((s.newInBuffer ib buf).allowRelease p, p)).map fun r => (r.1.setNext r.2 ib, true)

/-! ## `APB_ProcessBuffer` -/

/-- The header under the parser: the bytes of `p`, and the variables `bc`, `ib2` and `consumed`. -/
structure Header where
  p : Mem
  bc : Nat
  ib2 : Option IbPtr
  consumed : Nat

/-- The fields of the header. -/
def Header.hdr (h : Header) : Packet := Packet.load h.p

/-- `oddSize`, for a packet with data. -/
def Header.oddSize (h : Header) : Nat := if h.hdr.padded then 1 else 0

/-- Lines 173 to 208: the header, from one buffer or from two; none where the source waits for more bytes. -/
def readHeader (s : Reader) (ib1 : IbPtr) : Option Header :=
  let bc := s.bytes ib1 - (s.ibs ib1).offset
  let here := (s.data ib1).from_ (s.ibs ib1).offset
  if bc < sizeofPacket then
    if s.bytes ib1 < bufferSize then none
    else match s.next ib1 with
      | none => none
      | some ib2 =>
        if s.bytes ib2 < sizeofPacket - bc then none
        else some ⟨fun i => if i < bc then here i else s.data ib2 (i - bc), bc, some ib2, sizeofPacket - bc⟩
  else some ⟨here, bc, none, sizeofPacket⟩

/-- Where the data of the packet lies: the variables `ib2`, `consumed`, `oddSize` and the two ranges. -/
structure Located where
  ib2 : Option IbPtr
  consumed : Nat
  oddSize : Nat
  data1 : Option Addr
  dataLen1 : Nat
  data2 : Option Addr
  dataLen2 : Nat

/-- Lines 220 to 288: the data of a packet whose header was read; none where the source waits for more bytes. -/
def locate (s : Reader) (ib1 : IbPtr) (h : Header) : Option Located :=
  let buf1 := (s.ibs ib1).buf
  let off1 := (s.ibs ib1).offset
  let len := h.hdr.length.toNat
  let dl := len + h.oddSize
  if len = 0 then some ⟨h.ib2, h.consumed, 0, none, 0, none, 0⟩
  else match h.ib2 with
    | none =>
      if h.bc = sizeofPacket ∧ s.bytes ib1 = bufferSize then
        -- the header ends the buffer
        match s.next ib1 with
        | none => none
        | some ib2 =>
          if s.bytes ib2 < dl then none
          else some ⟨some ib2, len, h.oddSize, some ((s.ibs ib2).buf, 0), len, none, 0⟩
      else if h.bc - sizeofPacket < dl then
        -- the data is split
        if s.bytes ib1 < bufferSize then none
        else match s.next ib1 with
          | none => none
          | some ib2 =>
            let dataLen1 := h.bc - sizeofPacket
            let dataLen2 := len - dataLen1
            if s.bytes ib2 < dataLen2 + h.oddSize then none
            else some ⟨some ib2, dataLen2, h.oddSize, some (buf1, off1 + sizeofPacket), dataLen1,
              some ((s.ibs ib2).buf, 0), dataLen2⟩
      else some ⟨none, h.consumed + len, h.oddSize, some (buf1, off1 + sizeofPacket), len, none, 0⟩
    | some ib2 =>
      -- the header was split
      if s.bytes ib2 < dl + h.consumed then none
      else some ⟨some ib2, h.consumed + len, h.oddSize, some ((s.ibs ib2).buf, sizeofPacket - h.bc), len, none, 0⟩

/-- Lines 290 to 302: the completed checksum of the packet; none if one of the loops never ends. -/
def packetSum (s : Reader) (h : Header) (d : Located) : Option UInt16 :=
  (addToChecksum 0 h.p sizeofPacket).bind fun sum =>
    (if 0 < d.dataLen1 then
      if 0 < d.dataLen2 then
        (addToChecksum sum (s.mem d.data1) d.dataLen1).bind fun sum =>
          addToChecksum sum (s.mem d.data2) (d.dataLen2 + d.oddSize)
      else addToChecksum sum (s.mem d.data1) (d.dataLen1 + d.oddSize)
    else some sum).bind completeChecksum

/-- The `InPacket` of lines 313 to 322. -/
def newPacket (ib1 : IbPtr) (h : Header) (d : Located) : InPacket :=
  { inBuf := ib1, type := h.hdr.type, flags := h.hdr.flags, connId := h.hdr.connId, packId := h.hdr.packId,
    data1Length := d.dataLen1, data1 := d.data1, data2Length := d.dataLen2, data2 := d.data2, inBuf2 := d.ib2 }

/-- `AddTail` to `pr_Queue`. -/
def enqueue (s : Reader) (ip : InPacket) : Reader :=
  { s with queue := s.queue ++ [ip], queueSize := (s.queueSize + 1) % 65536 }

/-- `ib_PacketCount++`. -/
def countIn (s : Reader) (ib : IbPtr) : Reader :=
  s.setIb ib { s.ibs ib with packetCount := ((s.ibs ib).packetCount + 1) % 65536 }

/-- `ib_Offset += n`. -/
def advance (s : Reader) (ib : IbPtr) (n : Nat) : Reader :=
  s.setIb ib { s.ibs ib with offset := ((s.ibs ib).offset + n) % 65536 }

/-- Lines 313 to 351: the packet is queued and counted, and the parser moves past it. -/
def accept (s : Reader) (ib1 : IbPtr) (h : Header) (d : Located) : Reader × Option IbPtr :=
  let s₁ := (s.enqueue (newPacket ib1 h d)).countIn ib1
  let ib := d.ib2.getD ib1
  let s₂ := match d.ib2 with
    | some ib2 => s₁.countIn ib2
    | none => s₁
  let s₃ := { s₂ with inBuf := some ib }.advance ib (d.consumed + d.oddSize)
  (s₃, if (s₃.ibs ib).offset = bufferSize then s₃.next ib else some ib)

/-- Lines 359 to 363: the parser goes two bytes on in `ib`, or leaves it if there is nothing left. -/
def skip (s : Reader) (ib : IbPtr) : Reader :=
  if (s.ibs ib).offset < s.bytes ib then s.advance ib 2
  else if s.bytes ib = bufferSize ∧ (s.next ib).isSome then { s with inBuf := s.next ib }
  else s

/-- Lines 353 to 369: the parser gives up a header, and goes to the second buffer if it looked into one. -/
def badData (s : Reader) (ib1 : IbPtr) (ib2 : Option IbPtr) : Turn (Reader × Option IbPtr) Reader :=
  let ib := ib2.getD ib1
  let s' := s.skip ib
  if bufferSize < s'.bytes ib then .done s' else .again (s', some ib)

/-- A turn of the outer loop, on the reader and `ib1`. -/
def turn (al : Alloc) : Reader × Option IbPtr → Option (Turn (Reader × Option IbPtr) Reader)
  | (s, none) => some (.done s)
  | (s, some ib1) =>
    if s.bytes ib1 < (s.ibs ib1).offset then some (.done s)
    else match s.readHeader ib1 with
      | none => some (.done s)
      | some h =>
        if h.hdr.id ≠ packetId ∨ bufferSize < h.hdr.length.toNat then some (s.badData ib1 h.ib2)
        else match s.locate ib1 h with
          | none => some (.done s)
          | some d => (s.packetSum h d).map fun c =>
            if c ≠ 0xFFFF then s.badData ib1 d.ib2
            else if al.inPacket s then .again (s.accept ib1 h d)
            else .done s

/-- `APB_ProcessBuffer`. -/
def processBuffer (fuel : Nat) (al : Alloc) (s : Reader) (buf : BufPtr) : Option Reader :=
  (s.appendBuffer fuel al buf).bind fun r => if r.2 then Loop.run (turn al) fuel (r.1, r.1.inBuf) else some r.1

/-! ## What becomes of a packet -/

/-- `APB_ReleaseInBuffer`, with `APB_ReleaseBuffer`. -/
def releaseInBuffer (s : Reader) (ib : IbPtr) : Reader :=
  { s with ibUse := s.ibUse.erase ib, bufUse := s.bufUse.erase (s.ibs ib).buf }

/-- `ib_PacketCount--`, and the release of the buffer when that leaves none. -/
def countOut (s : Reader) (ib : IbPtr) : Reader :=
  let s' := s.setIb ib { s.ibs ib with packetCount := ((s.ibs ib).packetCount + 65535) % 65536 }
  if (s'.ibs ib).packetCount = 0 ∧ (s'.ibs ib).canRelease then s'.releaseInBuffer ib else s'

/-- `APB_ReleaseInPacket`. -/
def releaseInPacket (s : Reader) (ip : InPacket) : Reader :=
  let s' := s.countOut ip.inBuf
  match s'.next ip.inBuf with
  | none => s'
  | some ib => s'.countOut ib

/-- `APB_DequeueInPacket`. -/
def dequeueInPacket (s : Reader) : Option InPacket × Reader :=
  if s.queueSize = 0 then (none, s)
  else (s.queue.head?, { s with queue := s.queue.tail, queueSize := (s.queueSize + 65535) % 65536 })

/-- The bytes that `APB_InPacketToBuffer` copies; it returns their number. -/
def inPacketToBuffer (s : Reader) (ip : InPacket) : List UInt8 :=
  (s.mem ip.data1).slice 0 ip.data1Length ++ (s.mem ip.data2).slice 0 ip.data2Length

end Reader

end AmiPiBorg
