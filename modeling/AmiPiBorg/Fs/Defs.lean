import AmiPiBorg.Lib.Links

/-!
# The file system client (`clients/ApbFs`): its data

`ApbFs` turns the packets that DOS sends to its volumes into requests to a handler on the other side, and the handler's
responses into replies to the packets. Requests wait on `fs_Reqs` until the writer is free and stand on `fs_SentReqs`
from then on until a response comes in.

Objects are known by their addresses, and each kind of them has a memory of its own. The bytes that belong to DOS are
`mem`. Both lists are kept with the links that their nodes record. Where the source goes through a null pointer that an
allocation has given it, or copies beyond the memory that there is for a request or for the data of a read, the model
gives `none`. The server's port is there, so everything that is passed to `APB_Write` gets to the handler.
-/

set_option autoImplicit false

namespace AmiPiBorg.Fs

open ProgLib

abbrev Addr := UInt32

/-- `BADDR`. -/
def baddr (b : UInt32) : Addr := b <<< 2
/-- `MKBADDR`. -/
def mkbaddr (a : Addr) : UInt32 := a >>> 2

/-! ## Constants -/

/-- `MAX_WRITE_LEN`. -/
def maxWriteLen : Nat := 512
/-- `OT_REQUEST_MIN`. -/
def otRequestMin : UInt16 := 0x1123
/-- `OT_REQUEST_MAX`. -/
def otRequestMax : UInt16 := 0x1124
/-- `MOUNT_VOLUME_KEY`. -/
def mountVolumeKey : Addr := 0xFFFFFFFF
/-- `UNMOUNT_VOLUME_KEY`. -/
def unmountVolumeKey : Addr := 0xFFFFFFFE
/-- `sizeof(struct FsRequest)`. -/
def sizeofFsRequest : UInt16 := 42
/-- `offsetof(struct FsRequest, r_Self)`. -/
def offsetofSelf : UInt16 := 16
/-- `DOSTRUE`. -/
def dosTrue : UInt32 := 0xFFFFFFFF
/-- `DOSFALSE`. -/
def dosFalse : UInt32 := 0
/-- The `-1` of the last response. -/
def minusOne : UInt32 := 0xFFFFFFFF
/-- `SHARED_LOCK`. -/
def sharedLock : UInt32 := 0xFFFFFFFE
/-- `ERROR_NO_FREE_STORE`. -/
def errorNoFreeStore : UInt32 := 103
/-- `ERROR_ACTION_NOT_KNOWN`. -/
def errorActionNotKnown : UInt32 := 209
/-- `ERROR_DEVICE_NOT_MOUNTED`. -/
def errorDeviceNotMounted : UInt32 := 218

/-- The actions that `FS_HandlePacket` knows, and the others by their number. -/
inductive Action where
  | locateObject
  | freeLock
  | copyDir
  | sameLock
  | isFilesystem
  | diskInfo
  | info
  | setProtect
  | setComment
  | setDate
  | findInput
  | findOutput
  | findUpdate
  | flush
  | «end»
  | examineObject
  | examineNext
  | examineFh
  | parent
  | read
  | write
  | seek
  | parentFh
  | fhFromLock
  | createDir
  | deleteObject
  | renameObject
  | currentVolume
  | other (type : UInt32)
  deriving DecidableEq

/-! ## Records -/

/-- A message port: one of DOS, or `v_Port` of a volume. -/
inductive Port where
  | dos (n : Nat)
  | volume (v : Addr)
  deriving DecidableEq

def Port.isDos : Port → Bool
  | .dos _ => true
  | .volume _ => false

/-- `struct DosPacket`. The message of `dp_Link` is not told apart from the packet. -/
structure DosPacket where
  port : Port
  type : Action
  res1 : UInt32
  res2 : UInt32
  arg1 : UInt32
  arg2 : UInt32
  arg3 : UInt32
  arg4 : UInt32
  deriving DecidableEq

/-- `struct FsRequest` with what is appended to it. -/
structure FsRequest where
  volume : Addr
  pkt : Addr
  self : Addr
  arg1 : UInt32
  arg2 : UInt32
  arg3 : UInt32
  arg4 : UInt32
  volId : UInt16
  type : Action
  length : UInt16
  /-- The bytes after the record. -/
  bytes : List UInt8
  /-- Ghost: the object type that the memory came from. -/
  ot : UInt16
  deriving DecidableEq

/-- `struct FsResponse` with the bytes that follow it in the read buffer. -/
structure FsResponse where
  req : Addr
  res1 : UInt32
  res2 : UInt32
  data : Nat → UInt8

/-- `struct FsFileLock`. -/
structure FsFileLock where
  key : UInt32
  access : UInt32
  task : Port
  volume : UInt32
  magic : UInt16
  deriving DecidableEq

/-- `struct Volume`, without the names and the DOS device. -/
structure Volume where
  id : UInt16
  lockCount : Int16
  mounted : Bool
  /-- `v_Vol`, which is null without an entry in the DOS list. -/
  vol : Addr

/-- What has links: requests, and the headers of the two lists. -/
inductive Node where
  | null
  | reqsHead
  | reqsTail
  | sentHead
  | sentTail
  | request (r : Addr)
  deriving DecidableEq

/-- `fs_Reqs`. -/
def reqList : Header Node := ⟨.reqsHead, .reqsTail⟩
/-- `fs_SentReqs`. -/
def sentReqList : Header Node := ⟨.sentHead, .sentTail⟩

/-- `struct ApbFs` with the memory around it. -/
structure State where
  mem : Addr → UInt8
  pkts : Addr → DosPacket
  reqs : Addr → FsRequest
  locks : Addr → FsFileLock
  vols : Addr → Volume
  links : Links Node
  /-- `fs_Vols`. -/
  volList : List Addr
  writeReady : Bool
  /-- Whether the server has `fs_Reader`. -/
  reading : Bool
  /-- The messages on the ports of the volumes: the volume and the packet. -/
  msgs : List (Addr × Addr)
  /-- `r_Data` and `r_Length` of the writer at each call of `APB_Write`. -/
  written : List (Addr × UInt16)
  /-- Ghost: the requests that were enqueued and not sent. -/
  queued : List Addr
  /-- Ghost: the requests that were sent and not responded to for the last time. -/
  unanswered : List Addr
  /-- Ghost: the requests that are allocated now, that were ever, and that were freed, with their object types. -/
  live : List (Addr × UInt16)
  allocated : List (Addr × UInt16)
  freed : List (Addr × UInt16)
  /-- Ghost: the packets that DOS has sent and not got back. -/
  out : List Addr
  /-- Ghost: the packets that DOS has sent, and those that were passed to `FS_ReplyToDosPacket`. -/
  arrived : List Addr
  replied : List Addr
  /-- Ghost: the locks that are allocated now, that were ever, that were freed, and that DOS has given back, with their
  volumes. -/
  liveLocks : List (Addr × Addr)
  allocatedLocks : List (Addr × Addr)
  freedLocks : List (Addr × Addr)
  givenLocks : List (Addr × Addr)

/-! ## Memory -/

/-- The bytes from `a` on. -/
def bytesAt (mem : Addr → UInt8) (a : Addr) (n : Nat) : List UInt8 :=
  (List.range n).map fun i => mem (a + UInt32.ofNat i)

/-- `CopyMem`. -/
def copyMem (mem : Addr → UInt8) (src : Nat → UInt8) (dest : Addr) (n : Nat) : Addr → UInt8 :=
  fun a => if (a - dest).toNat < n then src (a - dest).toNat else mem a

/-- The long word at `a`. -/
def longAt (mem : Addr → UInt8) (a : Addr) : UInt32 :=
  (mem a).toUInt32 <<< 24 ||| (mem (a + 1)).toUInt32 <<< 16 ||| (mem (a + 2)).toUInt32 <<< 8 ||| (mem (a + 3)).toUInt32

/-- Writes a long word at `a`. -/
def setLong (mem : Addr → UInt8) (a : Addr) (x : UInt32) : Addr → UInt8 :=
  copyMem mem (fun i => (x >>> (24 - 8 * UInt32.ofNat i)).toUInt8) a 4

/-- Where `fh_Arg1` is in a file handle. -/
def offsetofFhArg1 : Addr := 36

namespace FsRequest

/-- How many bytes there are after the record. -/
def room (req : FsRequest) : Nat := if req.ot = otRequestMax then maxWriteLen else 0

/-- `FS_AppendArg`. -/
def appendArg (req : FsRequest) (arg : UInt16) (length : UInt16) (data : List UInt8) : Option FsRequest :=
  if req.room < req.length.toNat + length.toNat then none
  else
    let req' := match arg with
      | 1 => { req with arg1 := req.length.toUInt32 }
      | 2 => { req with arg2 := req.length.toUInt32 }
      | 3 => { req with arg3 := req.length.toUInt32 }
      | 4 => { req with arg4 := req.length.toUInt32 }
      | _ => req
    some { req' with length := req.length + length, bytes := req.bytes ++ data }

end FsRequest

namespace State

def setPkt (s : State) (p : Addr) (pkt : DosPacket) : State := { s with pkts := Function.update s.pkts p pkt }

def setReq (s : State) (r : Addr) (req : FsRequest) : State := { s with reqs := Function.update s.reqs r req }

def setLock (s : State) (l : Addr) (lock : FsFileLock) : State := { s with locks := Function.update s.locks l lock }

def setVol (s : State) (v : Addr) (vol : Volume) : State := { s with vols := Function.update s.vols v vol }

/-! ## Requests (`request.c`) -/

/-- The object type that `FS_AllocRequest` and `FS_FreeRequest` choose by a length. -/
def requestType (length : UInt16) : UInt16 := if length > 0 then otRequestMax else otRequestMin

/-- `FS_AllocRequest`. What `APB_AllocObject` answers is `mem`. -/
def allocRequest (s : State) (v p : Addr) (type : Action) (length : UInt16) (mem : Option Addr) :
    Option Addr × State :=
  let ot := requestType length
  match mem with
  | none => (none, s)
  | some r =>
    (some r, { s with live := s.live ++ [(r, ot)], allocated := s.allocated ++ [(r, ot)] }.setReq r
      { volume := v, pkt := p, self := r, arg1 := 0, arg2 := 0, arg3 := 0, arg4 := 0, volId := (s.vols v).id
        type := type, length := 0, bytes := [], ot := ot })

/-- `FS_FreeRequest`. -/
def freeRequest (s : State) (r : Addr) : State :=
  let ot := requestType (s.reqs r).length
  { s with live := s.live.erase (r, ot), freed := s.freed ++ [(r, ot)] }

/-! ## Sending (`device.c`) -/

/-- `FS_SendReq`. -/
def sendReq (s : State) : Option State :=
  if s.links.isEmpty reqList then some s
  else match s.links.remHead .null reqList with
    | (some (.request r), links) =>
      some { s with
        links := links.addTail sentReqList (.request r)
        written := s.written ++
          [(r + offsetofSelf.toUInt32, sizeofFsRequest + (s.reqs r).length - offsetofSelf)]
        writeReady := false
        queued := s.queued.erase r
        unanswered := s.unanswered ++ [r] }
    | _ => none

/-- `FS_EnqueueRequest`. -/
def enqueueRequest (s : State) (r : Addr) : Option State :=
  let s := { s with links := s.links.addTail reqList (.request r), queued := s.queued ++ [r] }
  if s.writeReady then s.sendReq else some s

/-- What the actions do that send a request: they allocate it, fill it in and enqueue it. None of them looks whether
there was memory. -/
def request (s : State) (v p : Addr) (type : Action) (length : UInt16) (mem : Option Addr)
    (fill : FsRequest → Option FsRequest) : Option State :=
  match s.allocRequest v p type length mem with
  | (none, _) => none
  | (some r, s) =>
    match fill (s.reqs r) with
    | none => none
    | some req => (s.setReq r req).enqueueRequest r

/-! ## Locks and packets (`volume.c`) -/

/-- `LOCK_KEY`, of the lock that a packet names. -/
def lockKey (s : State) (arg : UInt32) : UInt32 := if baddr arg = 0 then 0 else (s.locks (baddr arg)).key

/-- What a lock's `fl_Magic` is. -/
def magicOf (l : Addr) : UInt16 := l.toUInt16

/-- `FS_AllocLock`. What `APB_AllocObject` answers is `lock`. -/
def allocLock (s : State) (v : Addr) (lock : Option Addr) : Option Addr × State :=
  match lock with
  | none => (none, s)
  | some l =>
    let s := (s.setLock l { s.locks l with magic := magicOf l }).setVol v
      { s.vols v with lockCount := (s.vols v).lockCount + 1 }
    (some l, { s with liveLocks := s.liveLocks ++ [(l, v)], allocatedLocks := s.allocatedLocks ++ [(l, v)] })

/-- `FS_FreeLock`. -/
def freeLock (s : State) (v l : Addr) : State :=
  if l = 0 then s
  else if (s.locks l).magic ≠ magicOf l then s
  else { s.setVol v { s.vols v with lockCount := (s.vols v).lockCount - 1 } with
    liveLocks := s.liveLocks.erase (l, v), freedLocks := s.freedLocks ++ [(l, v)] }

/-- `PutMsg`, of a packet. -/
def putMsg (s : State) (port : Port) (p : Addr) : State :=
  match port with
  | .dos _ => { s with out := s.out.erase p }
  | .volume w => { s with msgs := s.msgs ++ [(w, p)] }

/-- The lock that DOS has given back once a packet is replied to. -/
def givenLock (v : Addr) (pkt : DosPacket) : List (Addr × Addr) :=
  if pkt.type = .freeLock ∧ baddr pkt.arg1 ≠ 0 then [(baddr pkt.arg1, v)]
  else if pkt.type = .fhFromLock ∧ pkt.res1 = dosTrue ∧ baddr pkt.arg2 ≠ 0 then [(baddr pkt.arg2, v)]
  else []

/-- `FS_ReplyToDosPacket`; the request of the response is `r`. -/
def replyToDosPacket (s : State) (v : Addr) (r : Option Addr) (p : Addr) : State :=
  let replyPort := (s.pkts p).port
  let given := givenLock v (s.pkts p)
  let s := (s.setPkt p { s.pkts p with port := .volume v }).putMsg replyPort p
  let s := { s with replied := s.replied ++ [p], givenLocks := s.givenLocks ++ given }
  match r with
  | none => s
  | some r => if r = 0 then s else s.freeRequest r

/-! ## Volumes (`volume.c`, `device.c`) -/

/-- What the system answers when a volume is mounted, and `rest`, the value of a call that ends without `return`. -/
structure Mounting where
  /-- `APB_AllocObject`. -/
  mem : Option Addr
  /-- `CreatePort`. -/
  port : Bool
  /-- `FS_CreateDosDevice`. -/
  device : Bool
  /-- `MakeDosEntry`. -/
  entry : Option Addr
  /-- `FS_AddDosEntry`. -/
  add : Bool
  rest : Bool

/-- Whether the entry of the volume gets into the DOS list. -/
def Mounting.ok (m : Mounting) : Bool := m.entry.isSome && m.add

/-- `FS_MountVolume`. -/
def mountVolume (s : State) (v : Addr) (m : Mounting) : Bool × State :=
  let s := s.setVol v { s.vols v with vol := m.entry.getD 0 }
  if m.ok then (true, s.setVol v { s.vols v with lockCount := 0, mounted := true }) else (m.rest, s)

/-- `FS_UnmountVolume`. -/
def unmountVolume (s : State) (v : Addr) : State :=
  if (s.vols v).mounted then s.setVol v { s.vols v with vol := 0, mounted := false } else s

/-- `FS_CreateVolume`. -/
def createVolume (s : State) (id : UInt16) (m : Mounting) : Option Addr × State :=
  match m.mem with
  | none => (none, s)
  | some v =>
    let s := s.setVol v { s.vols v with id := id }
    if m.port && m.device then
      match s.mountVolume v m with
      | (true, s) => (some v, s)
      | (false, s) => (none, s)
    else (none, s)

/-- `FS_HandleMountVolume`. -/
def handleMountVolume (s : State) (id : UInt16) (m : Mounting) : State :=
  match s.volList.find? fun v => (s.vols v).id = id with
  | some v => (s.mountVolume v m).2
  | none =>
    match s.createVolume id m with
    | (none, s) => s
    | (some v, s) => { s with volList := s.volList ++ [v] }

/-- `FS_HandleUnmountVolume`. -/
def handleUnmountVolume (s : State) (id : UInt16) : State :=
  match s.volList.find? fun v => (s.vols v).id = id with
  | some v => s.unmountVolume v
  | none => s

/-- `FS_CanQuit`. -/
def canQuit (s : State) : Bool := s.volList.all fun v => !decide ((s.vols v).lockCount > 0)

end State

end AmiPiBorg.Fs
