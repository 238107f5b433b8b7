import AmiPiBorg.Protocol.Packet

/-!
# The packet writer (`server/packetwriter.c`)

As in the reader, objects live in heaps that are functions from pointers, and the pools are lists of the pointers in
use. The nodes of `pw_RecentPackets` are on one list only, so a list of their contents stands for them.

* `allocPacketWithId` finds room in the current buffer or takes a new one (`currentBuffer`), writes the header
  (`addPacket`), drops the oldest sent packets (`trim`) and lists the new one.
* `writeBuffer` completes the checksums of the head buffer's packets (`sendPackets`), hands its unsent bytes to
  `REM_Write`, and takes the buffer off the queue when another one follows.
* `resendPacket` copies a listed packet into a new one.

Results are `none` where the source would not come back, or would read a list node that is not there.
-/

set_option autoImplicit false

namespace AmiPiBorg

open ProgLib

/-- `RECENT_PACKETS_TO_KEEP`. -/
def recentPacketsToKeep : Nat := 10

/-- A pointer to a `struct OutBuffer`. -/
abbrev ObPtr := Nat

/-- `struct OutBuffer`. -/
structure OutBuffer where
  buf : BufPtr
  offset : Nat
  packetCount : Nat
  canRelease : Bool
  deriving Inhabited

/-- `struct OutPacket`. -/
structure OutPacket where
  outBuf : ObPtr
  pac : Addr
  sent : Bool
  deriving DecidableEq

/-- `struct PacketWriter`, with the objects that it works on. -/
structure Writer where
  queue : List ObPtr
  recents : List OutPacket
  outBuf : Option ObPtr
  recentCount : Nat
  bufCount : Nat
  nextPackId : UInt16
  obs : ObPtr → OutBuffer
  bufs : BufPtr → Buffer
  /-- The `OutBuffer` objects in use. -/
  obUse : List ObPtr
  /-- The `Buffer` objects in use. -/
  bufUse : List BufPtr

namespace Writer

/-- `APB_CreatePacketWriter`, on whatever the memory holds. -/
def createPacketWriter (obs : ObPtr → OutBuffer) (bufs : BufPtr → Buffer) : Writer :=
  { queue := [], recents := [], outBuf := none, recentCount := 0, bufCount := 0, nextPackId := 1, obs := obs,
    bufs := bufs, obUse := [], bufUse := [] }

/-- The memory at a pointer into a buffer. -/
def mem (s : Writer) (p : Addr) : Mem := (s.bufs p.1).data.from_ p.2

/-- The packet header at a pointer. -/
def header (s : Writer) (p : Addr) : Packet := Packet.load (s.mem p)

/-- The record `v` stored at `ob`. -/
def setOb (s : Writer) (ob : ObPtr) (v : OutBuffer) : Writer := { s with obs := Function.update s.obs ob v }

/-- The record `v` stored at the buffer `b`. -/
def setBuf (s : Writer) (b : BufPtr) (v : Buffer) : Writer := { s with bufs := Function.update s.bufs b v }

/-- The bytes `bs` stored at a pointer. -/
def storeAt (s : Writer) (p : Addr) (bs : List UInt8) : Writer :=
  s.setBuf p.1 { s.bufs p.1 with data := (s.bufs p.1).data.store p.2 bs }

/-- What the object pools answer: an object that is not in use, or none, and whether there is an `OutPacket`. -/
structure Alloc where
  outBuffer : Writer → Option ObPtr
  buffer : Writer → Option BufPtr
  outPacket : Writer → Bool
  outBuffer_fresh : ∀ s p, outBuffer s = some p → p ∉ s.obUse
  buffer_fresh : ∀ s b, buffer s = some b → b ∉ s.bufUse

/-! ## Releasing -/

/-- `APB_ReleaseOutBuffer`, with `APB_ReleaseBuffer`. -/
def releaseOutBuffer (s : Writer) (ob : ObPtr) : Writer :=
  { s with obUse := s.obUse.erase ob, bufUse := s.bufUse.erase (s.obs ob).buf }

/-- `APB_ReleaseOutPacket`. -/
def releaseOutPacket (s : Writer) (op : OutPacket) : Writer :=
  let s' := s.setOb op.outBuf
    { s.obs op.outBuf with packetCount := ((s.obs op.outBuf).packetCount + 65535) % 65536 }
  if (s'.obs op.outBuf).packetCount = 0 ∧ (s'.obs op.outBuf).canRelease then s'.releaseOutBuffer op.outBuf else s'

/-! ## `APB_AllocPacketWithId` -/

/-- Lines 172 to 179: `ob`, with the buffer `b`, is the current buffer and the last one of the queue. -/
def openBuffer (s : Writer) (ob : ObPtr) (b : BufPtr) : Writer :=
  { (s.setBuf b { s.bufs b with offset := 0 }).setOb ob
      { buf := b, offset := 0, packetCount := 0, canRelease := false } with
    bufUse := b :: s.bufUse, outBuf := some ob, queue := s.queue ++ [ob], bufCount := (s.bufCount + 1) % 65536 }

/-- Lines 163 to 179, for a new buffer. An `OutBuffer` that gets no `Buffer` stays in use, and nothing refers to it. -/
def newOutBuffer (al : Alloc) (s : Writer) : Writer × Option ObPtr :=
  match al.outBuffer s with
  | none => (s, none)
  | some ob =>
    let s' := { s with obUse := ob :: s.obUse }
    match al.buffer s' with
    | none => (s', none)
    | some b => (s'.openBuffer ob b, some ob)

/-- Lines 155 to 182: the current buffer, or a new one if that has no room. -/
def currentBuffer (al : Alloc) (s : Writer) (length : Nat) : Writer × Option ObPtr :=
  match s.outBuf with
  | none => s.newOutBuffer al
  | some ob =>
    if bufferSize ≤ (s.bufs (s.obs ob).buf).offset + length + 1 then s.newOutBuffer al else (s, some ob)

/-- Lines 189 to 205: the fields that the writer fills in, and the room that the packet takes. The byte that is cleared
is the one after the pad byte. -/
def addPacket (s : Writer) (ob : ObPtr) (length : Nat) (packId : UInt16) : Writer × OutPacket :=
  let b := (s.obs ob).buf
  let off := (s.bufs b).offset
  let s₁ := ((((s.storeAt (b, off) (be32 packetId)).storeAt (b, off + 8) (be16 packId)).storeAt (b, off + 5) [0]).storeAt
    (b, off + 12) (be16 (UInt16.ofNat (length - sizeofPacket)))).storeAt (b, off + 10) (be16 0)
  let s₂ := (s₁.setBuf b { s₁.bufs b with offset := off + length }).setOb ob
    { s.obs ob with packetCount := ((s.obs ob).packetCount + 1) % 65536 }
  let s₃ := if length % 2 = 1 then
      let s₃ := (s₂.storeAt (b, off + 5) [padByte])
      (s₃.setBuf b { s₃.bufs b with offset := off + length + 1 }).storeAt (b, off + length + 1) [0]
    else s₂
  (s₃, { outBuf := ob, pac := (b, off), sent := false })

/-- The loop of lines 207 to 218, on the list of recent packets. -/
def trim : List OutPacket → Writer → Option Writer
  | ops, s =>
    if s.recentCount ≤ recentPacketsToKeep then some { s with recents := ops }
    else match ops with
      | [] => none
      | op :: ops' =>
        if op.sent then trim ops' { s.releaseOutPacket op with recentCount := (s.recentCount + 65535) % 65536 }
        else some { s with recents := ops }

/-- `APB_AllocPacketWithId`. -/
def allocPacketWithId (al : Alloc) (s : Writer) (length : Nat) (packId : UInt16) : Option (Writer × Option Addr) :=
  if bufferSize < length then some (s, none)
  else if length < sizeofPacket then some (s, none)
  else match s.currentBuffer al length with
    | (s, none) => some (s, none)
    | (s, some ob) =>
      if al.outPacket s then
        let r := s.addPacket ob length packId
        (trim r.1.recents r.1).map fun s =>
          ({ s with recents := s.recents ++ [r.2], recentCount := (s.recentCount + 1) % 65536 }, some r.2.pac)
      else some (s, none)

/-- `APB_AllocPacket`. -/
def allocPacket (al : Alloc) (s : Writer) (length : Nat) : Option (Writer × Option Addr) :=
  allocPacketWithId al { s with nextPackId := s.nextPackId + 1 } length s.nextPackId

/-! ## Filling in -/

/-- What the caller of `APB_AllocPacket` stores in the packet that it gets: the type, the connection and the payload. -/
def fill (s : Writer) (p : Addr) (type : UInt8) (connId : UInt16) (payload : List UInt8) : Writer :=
  ((s.storeAt (p.1, p.2 + 4) [type]).storeAt (p.1, p.2 + 6) (be16 connId)).storeAt (p.1, p.2 + sizeofPacket) payload

/-! ## `APB_WriteBuffer` -/

/-- The bytes that a packet takes, from its own length field. -/
def packetSize (s : Writer) (p : Addr) : Nat :=
  (sizeofPacket + (s.header p).length.toNat + if (s.header p).length.toNat % 2 = 1 then 1 else 0) % 65536

/-- The loop of lines 245 to 255: the packets of `ob` that are not sent get their checksums. -/
def sendPackets (ob : ObPtr) : Writer → List OutPacket → Option (Writer × List OutPacket)
  | s, [] => some (s, [])
  | s, op :: ops =>
    if op.outBuf = ob ∧ op.sent = false then
      (calculateChecksum (s.mem op.pac) (s.packetSize op.pac)).bind fun c =>
        (sendPackets ob (s.storeAt (op.pac.1, op.pac.2 + 10) (be16 c)) ops).map fun r =>
          (r.1, { op with sent := true } :: r.2)
    else (sendPackets ob s ops).map fun r => (r.1, op :: r.2)

/-- A call of `REM_Write`. -/
structure Write where
  /-- Ghost: the `OutBuffer` of the data. -/
  outBuf : ObPtr
  data : Addr
  /-- The bytes of the range at the moment of the call. -/
  bytes : List UInt8
  deriving DecidableEq

/-- Lines 243 to 271: the unsent bytes of `ob`. -/
def sendBuffer (s : Writer) (ob : ObPtr) : Option (Writer × Option Write) :=
  let b := (s.obs ob).buf
  if (s.obs ob).offset < (s.bufs b).offset then
    (sendPackets ob s s.recents).map fun r =>
      let s' := { r.1 with recents := r.2 }
      let bc := (s'.bufs b).offset - (s'.obs ob).offset
      (s'.setOb ob { s'.obs ob with offset := (s'.bufs b).offset },
        some { outBuf := ob, data := (b, (s'.obs ob).offset), bytes := (s'.bufs b).data.slice (s'.obs ob).offset bc })
  else some (s, none)

/-- Lines 273 to 282: the head buffer is done with if another one follows. -/
def popBuffer (s : Writer) (ob : ObPtr) : Writer :=
  if 1 < s.bufCount then
    { s.setOb ob { s.obs ob with canRelease := true } with
      queue := s.queue.tail, bufCount := (s.bufCount + 65535) % 65536 }
  else s

/-- `APB_WriteBuffer`, with the call of `REM_Write`, if there is one. -/
def writeBuffer (s : Writer) : Option (Writer × Option Write) :=
  match s.queue with
  | [] => some (s, none)
  | ob :: _ => (s.sendBuffer ob).map fun r => (r.1.popBuffer ob, r.2)

/-! ## `APB_ResendPacket` -/

/-- `APB_ResendPacket`. -/
def resendPacket (al : Alloc) (s : Writer) (packId : UInt16) : Option Writer :=
  match s.recents.find? fun op => (s.header op.pac).id = packId.toUInt32 with
  | none => some s
  | some op =>
    let length := (sizeofPacket + (s.header op.pac).length.toNat) % 65536
    (s.allocPacketWithId al length packId).map fun
      | (s, none) => s
      | (s, some copy) =>
        let n := sizeofPacket + (s.header op.pac).length.toNat
        let s₁ := s.storeAt copy ((s.mem op.pac).slice 0 n)
        let s₂ := s₁.storeAt (copy.1, copy.2 + 5) [(s₁.header copy).flags ||| resend]
        s₂.storeAt (copy.1, copy.2 + 10) (be16 0)

end Writer

end AmiPiBorg
