import AmiPiBorg.Reader.Receive

/-!
# Reading from the remote (`remote/serialremote.c`)

`REM_Read` asks the serial device for one byte. When it has come, `REM_HandleSignal` fetches what else the device holds,
as far as there is room (`handleSignal`), and the server takes all of it and asks again (`srvReceiveFromRemote`,
`srvBeginRead`).

`Intake` is the receiving side of the server with its remote. It keeps a record of every call of `REM_Read`, of every
store of the device and of every `b_Offset` that a read leaves, so that these can be spoken of. What is stored beyond
the end of a buffer is only recorded: the memory there is not part of the model.
-/

set_option autoImplicit false

namespace AmiPiBorg

open ProgLib

namespace Reader

/-- The device stores `bs` in the buffer `b`. -/
def storeAt (s : Reader) (b : BufPtr) (off : Nat) (bs : List UInt8) : Reader :=
  s.setBuf b { s.bufs b with data := (s.bufs b).data.store off bs }

/-- `b_Offset += n`. -/
def addOffset (s : Reader) (b : BufPtr) (n : Nat) : Reader :=
  s.setBuf b { s.bufs b with offset := ((s.bufs b).offset + n) % 65536 }

end Reader

/-- The fields of `struct Remote` that a read uses. -/
structure Remote where
  readBuf : Option Addr
  readBufSize : Nat
  bytesRead : Nat
  readReady : Bool

namespace Remote

/-- `REM_OpenRemote`. -/
def openRemote : Remote := { readBuf := none, readBufSize := 0, bytesRead := 0, readReady := true }

/-- `REM_Read`, with `BeginRead`: the device is to store one byte at `r_ReadBuf`. -/
def read (data : Option Addr) (length : Nat) : Remote :=
  { readBuf := data, readBufSize := length, bytesRead := 0, readReady := false }

/-- `size` in `ContinueRead`, when `n` bytes have come and the device holds `avail` more; zero if it returns early. -/
def continueSize (r : Remote) (n avail : Nat) : Nat :=
  let size := (r.readBufSize + 65536 - n) % 65536
  if avail = 0 ∨ size = 0 then 0 else min size avail

end Remote

/-- What a read does to the memory. -/
inductive Act where
  /-- `REM_Read(data, length)`. -/
  | read (data : Option Addr) (length : Nat)
  /-- The device stores `count` bytes from `r_ReadBuf + pos` on, when the read is of `length` bytes. -/
  | store (pos count length : Nat)
  /-- `b_Offset` of the read buffer behind the bytes of a read. -/
  | filled (offset : Nat)
  deriving DecidableEq

/-- A read goes to a buffer that has room for all of it, the device stores no more, and the buffer holds it. -/
def Act.InBounds : Act → Prop
  | .read none _ => False
  | .read (some a) length => 1 ≤ length ∧ a.2 + length ≤ bufferSize
  | .store pos count length => pos + count ≤ length
  | .filled offset => offset ≤ bufferSize

instance : ∀ a : Act, Decidable a.InBounds
  | .read none _ => inferInstanceAs (Decidable False)
  | .read (some _) _ => inferInstanceAs (Decidable (_ ∧ _))
  | .store .. => inferInstanceAs (Decidable (_ ≤ _))
  | .filled _ => inferInstanceAs (Decidable (_ ≤ _))

/-- The receiving side of the server, and its remote. -/
structure Intake where
  rx : Rx
  remote : Remote
  /-- What the memory holds where `b_Offset` of a null pointer would be. -/
  nullOffset : Nat
  /-- Ghost: what was done, in order. No code reads it. -/
  acts : List Act

namespace Intake

/-- `b_Offset` of `srv_ReadBuffer`. -/
def offset (x : Intake) : Nat :=
  match x.rx.readBuffer with
  | none => x.nullOffset
  | some b => (x.rx.rd.bufs b).offset

/-- `BUF_CURR`; a null pointer if there is no read buffer. -/
def current (x : Intake) : Option Addr := x.rx.readBuffer.map fun b => (b, (x.rx.rd.bufs b).offset)

/-- `BUF_AVAIL`, as the `UWORD` that `REM_Read` takes. -/
def avail (x : Intake) : Nat := (bufferSize + 65536 - x.offset) % 65536

/-- `REM_Read` of what the read buffer has room for. -/
def remRead (x : Intake) : Intake :=
  { x with remote := .read x.current x.avail, acts := x.acts ++ [.read x.current x.avail] }

/-- `APB_SrvBeginRead`. -/
def srvBeginRead (al : Reader.Alloc) (x : Intake) : Intake :=
  let x' := { x with rx := x.rx.srvBeginRead al }
  if x'.remote.readReady then x'.remRead else x'

/-- The device stores `bs` at `r_ReadBuf + pos`. -/
def store (x : Intake) (pos : Nat) (bs : List UInt8) : Intake :=
  { x with
    rx := match x.remote.readBuf with
      | none => x.rx
      | some a => { x.rx with rd := x.rx.rd.storeAt a.1 (a.2 + pos) bs }
    acts := x.acts ++ [.store pos bs.length x.remote.readBufSize] }

/-- `REM_HandleSignal`, with `ContinueRead`: the device has stored `first`, and holds `pending`. It stores no more than
it is asked for, one byte, and nothing unless it is asked. -/
def handleSignal (first pending : List UInt8) (x : Intake) : Option Intake :=
  if 1 < first.length ∨ x.remote.readReady ∧ first ≠ [] then none
  else
    let n := (x.remote.bytesRead + first.length) % 65536
    let rest := pending.take (x.remote.continueSize n pending.length)
    some { (x.store 0 first).store n rest with
      remote := { x.remote with bytesRead := (n + rest.length) % 65536, readReady := true } }

/-- `APB_SrvReceiveFromRemote`, up to the handling of the packets. Without a read buffer it writes through a null
pointer. -/
def srvReceiveFromRemote (fuel : Nat) (al : Reader.Alloc) (x : Intake) : Option Intake :=
  if x.remote.readReady = false ∨ x.remote.bytesRead = 0 then some x
  else match x.rx.readBuffer with
    | none => none
    | some b =>
      let rd := x.rx.rd.addOffset b x.remote.bytesRead
      (rd.processBuffer fuel al b).map fun rd' => srvBeginRead al
        { x with rx := { x.rx with rd := rd' }, acts := x.acts ++ [.filled (rd.bufs b).offset] }

/-- What happens to the receiving side. -/
inductive Event where
  /-- The end of `APB_WaitForMessage`, with the read signal or without. -/
  | message (al : Reader.Alloc) (sig : Option (List UInt8 × List UInt8))
  | dequeue
  | release (i : Nat)
  /-- What others do to buffers that the reader does not have in use. -/
  | others (bufs : BufPtr → Buffer)

/-- One event. -/
def step (fuel : Nat) (x : Intake) : Event → Option Intake
  | .message al sig =>
    (match sig with
      | none => some x
      | some (first, pending) => x.handleSignal first pending).bind (srvReceiveFromRemote fuel al)
  | .dequeue => (x.rx.step fuel .dequeue).map fun rx => { x with rx := rx }
  | .release i => (x.rx.step fuel (.release i)).map fun rx => { x with rx := rx }
  | .others bufs => some { x with
      rx := { x.rx with rd := { x.rx.rd with
        bufs := fun b => if b ∈ x.rx.rd.bufUse then x.rx.rd.bufs b else bufs b } } }

/-- The server when it has opened the remote and asked for the first byte. -/
def start (al : Reader.Alloc) (ibs : IbPtr → InBuffer) (bufs : BufPtr → Buffer) (nullOffset : Nat) : Intake :=
  srvBeginRead al
    { rx := { rd := .createPacketReader ibs bufs, readBuffer := none, held := [] }
      remote := .openRemote
      nullOffset := nullOffset
      acts := [] }

end Intake

end AmiPiBorg
