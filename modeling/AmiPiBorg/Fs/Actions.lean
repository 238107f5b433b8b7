import AmiPiBorg.Fs.Defs
import AmiPiBorg.Lib.Runs

/-!
# The file system client: its actions (`clients/ApbFs/volume.c`, `device.c`)

Each action turns a packet into requests (`actionLocateObject` and the others, dispatched by `handlePacket`), and a
response into the reply to the packet (`actionLocateObjectReply` and the others, dispatched by `receiveRemoteMessage`).
A `step` takes one message from a port, or is something that DOS, the server or other tasks do.

Of what the client writes into an `InfoData` or a `FileInfoBlock`, only `fib_DiskKey` and what is copied from a response
are modelled, since it reads nothing else there.
-/

set_option autoImplicit false

namespace AmiPiBorg.Fs

open ProgLib

namespace State

def setRes (s : State) (p : Addr) (res1 res2 : UInt32) : State :=
  s.setPkt p { s.pkts p with res1 := res1, res2 := res2 }

def setRes1 (s : State) (p : Addr) (res1 : UInt32) : State := s.setPkt p { s.pkts p with res1 := res1 }

/-- The length of a name with its length byte. The byte is read with its sign. -/
def bstrLen (s : State) (arg : UInt32) : UInt16 := (s.mem (baddr arg)).toInt8.toInt16.toUInt16 + 1

/-- The bytes of a name with its length byte. -/
def bstr (s : State) (arg : UInt32) : List UInt8 := bytesAt s.mem (baddr arg) (s.bstrLen arg).toNat

/-! ## From packets to requests -/

/-- `FS_ActionLocateObject`. -/
def actionLocateObject (s : State) (v p : Addr) (mem : Option Addr) : Option State :=
  let pkt := s.pkts p
  s.request v p .locateObject (s.bstrLen pkt.arg2) mem fun req =>
    (req.appendArg 2 (s.bstrLen pkt.arg2) (s.bstr pkt.arg2)).map fun req =>
      { req with arg1 := s.lockKey pkt.arg1, arg3 := pkt.arg3 }

/-- `FS_ActionFreeLock`. -/
def actionFreeLock (s : State) (v p : Addr) (mem : Option Addr) : Option State :=
  let key := s.lockKey (s.pkts p).arg1
  if key = 0 then some ((s.setRes1 p dosTrue).replyToDosPacket v none p)
  else s.request v p .freeLock 0 mem fun req => some { req with arg1 := key }

/-- `FS_ActionSameLock`. -/
def actionSameLock (s : State) (v p : Addr) (mem : Option Addr) : Option State :=
  let key1 := s.lockKey (s.pkts p).arg1
  let key2 := s.lockKey (s.pkts p).arg2
  if key1 = key2 then some ((s.setRes1 p dosTrue).replyToDosPacket v none p)
  else s.request v p .sameLock 0 mem fun req => some { req with arg1 := key1, arg2 := key2 }

/-- `FS_ActionCopyDir`. -/
def actionCopyDir (s : State) (v p : Addr) (lock : Option Addr) : State :=
  let l := baddr (s.pkts p).arg1
  match s.allocLock v lock with
  | (none, s) => s.setRes p dosFalse errorNoFreeStore
  | (some copy, s) =>
    let lk := s.locks copy
    let s := if l ≠ 0 ∧ (s.locks l).key ≠ 0 then
        s.setLock copy { lk with
          key := (s.locks l).key, access := (s.locks l).access, task := (s.locks l).task
          volume := (s.locks l).volume }
      else
        s.setLock copy { lk with
          key := 0, access := sharedLock, task := .volume v, volume := mkbaddr (s.vols v).vol }
    s.setRes p (mkbaddr copy) 0

/-- `FS_ActionInfo`. -/
def actionInfo (s : State) (v p : Addr) (mem : Option Addr) : Option State :=
  if (s.vols v).mounted then s.request v p .info 0 mem some else some (s.setRes1 p dosTrue)

/-- `FS_ActionOpen`. -/
def actionOpen (s : State) (v p : Addr) (mem : Option Addr) : Option State :=
  let pkt := s.pkts p
  s.request v p pkt.type (s.bstrLen pkt.arg3) mem fun req =>
    (req.appendArg 3 (s.bstrLen pkt.arg3) (s.bstr pkt.arg3)).map fun req => { req with arg2 := s.lockKey pkt.arg2 }

/-- `FS_ActionEnd`. -/
def actionEnd (s : State) (v p : Addr) (mem : Option Addr) : Option State :=
  s.request v p .end 0 mem fun req => some { req with arg1 := (s.pkts p).arg1 }

/-- `FS_ActionExamine`. -/
def actionExamine (s : State) (v p : Addr) (mem : Option Addr) : Option State :=
  let key := s.lockKey (s.pkts p).arg1
  if key = 0 then
    some ({ s with mem := setLong s.mem (baddr (s.pkts p).arg2) 0 }.replyToDosPacket v none p)
  else s.request v p .examineObject 0 mem fun req => some { req with arg1 := key, arg2 := 0 }

/-- `FS_ActionExamineNext`. -/
def actionExamineNext (s : State) (v p : Addr) (mem : Option Addr) : Option State :=
  let pkt := s.pkts p
  let fib := baddr pkt.arg2
  let s := if (longAt s.mem fib).toInt32 < 0 then { s with mem := setLong s.mem fib 0 } else s
  s.request v p .examineNext 0 mem fun req =>
    some { req with arg1 := s.lockKey pkt.arg1, arg2 := longAt s.mem fib }

/-- `FS_ActionExamineFH`. -/
def actionExamineFh (s : State) (v p : Addr) (mem : Option Addr) : Option State :=
  s.request v p .examineFh 0 mem fun req =>
    some { req with arg1 := longAt s.mem (baddr (s.pkts p).arg1 + offsetofFhArg1) }

/-- What `FS_ActionParent` and `FS_ActionParentFH` do. -/
def parentRequest (s : State) (v p : Addr) (type : Action) (mem : Option Addr) : Option State :=
  let key := s.lockKey (s.pkts p).arg1
  (s.setPkt p { s.pkts p with arg3 := sharedLock }).request v p type 0 mem fun req => some { req with arg1 := key }

/-- `FS_ActionParent`. -/
def actionParent (s : State) (v p : Addr) (mem : Option Addr) : Option State := s.parentRequest v p .parent mem

/-- `FS_ActionParentFH`. -/
def actionParentFh (s : State) (v p : Addr) (mem : Option Addr) : Option State := s.parentRequest v p .parentFh mem

/-- `FS_ActionRead`. -/
def actionRead (s : State) (v p : Addr) (mem : Option Addr) : Option State :=
  let pkt := s.pkts p
  (s.setRes1 p 0).request v p .read 0 mem fun req => some { req with arg1 := pkt.arg1, arg3 := pkt.arg3 }

/-- An iteration of the loop of `FS_ActionWrite`, with `n` bytes to write of the data at `data`. -/
def writeChunk (s : State) (v p : Addr) (data : Addr) (n : Nat) (mem : Option Addr) : Option State :=
  let pkt := s.pkts p
  let packetBytes := min n maxWriteLen
  s.request v p .write (UInt16.ofNat packetBytes) mem fun req =>
    let req := { req with arg1 := pkt.arg1, arg3 := pkt.arg3 }
    (req.appendArg 2 (UInt16.ofNat packetBytes) (bytesAt s.mem data packetBytes)).map fun req =>
      { req with arg3 := UInt32.ofNat (n - packetBytes), arg4 := UInt32.ofNat packetBytes }

/-- The loop of `FS_ActionWrite`. Memory that nothing is said about is not there. -/
def writeChunks (v p : Addr) : List (Option Addr) → State → Addr → Nat → Option State
  | _, s, _, 0 => some s
  | [], _, _, _ + 1 => none
  | mem :: mems, s, data, n + 1 =>
    let packetBytes := min (n + 1) maxWriteLen
    (s.writeChunk v p data (n + 1) mem).bind fun s =>
      writeChunks v p mems s (data + UInt32.ofNat packetBytes) (n + 1 - packetBytes)

/-- How many bytes an `ACTION_WRITE` packet asks to write. A negative number counts as none. -/
def bytesToWrite (pkt : DosPacket) : Nat := pkt.arg3.toInt32.toInt.toNat

/-- `FS_ActionWrite`. -/
def actionWrite (s : State) (v p : Addr) (mems : List (Option Addr)) : Option State :=
  writeChunks v p mems (s.setRes1 p 0) (s.pkts p).arg2 (bytesToWrite (s.pkts p))

/-- `FS_ActionSeek`. -/
def actionSeek (s : State) (v p : Addr) (mem : Option Addr) : Option State :=
  let pkt := s.pkts p
  s.request v p .seek 0 mem fun req => some { req with arg1 := pkt.arg1, arg2 := pkt.arg2, arg3 := pkt.arg3 }

/-- What `FS_ActionCreateDir` and `FS_ActionDeleteObject` do. -/
def nameRequest (s : State) (v p : Addr) (type : Action) (mem : Option Addr) : Option State :=
  let pkt := s.pkts p
  s.request v p type (s.bstrLen pkt.arg2) mem fun req =>
    { req with arg1 := s.lockKey pkt.arg1 }.appendArg 2 (s.bstrLen pkt.arg2) (s.bstr pkt.arg2)

/-- `FS_ActionCreateDir`. -/
def actionCreateDir (s : State) (v p : Addr) (mem : Option Addr) : Option State := s.nameRequest v p .createDir mem

/-- `FS_ActionDeleteObject`. -/
def actionDeleteObject (s : State) (v p : Addr) (mem : Option Addr) : Option State :=
  s.nameRequest v p .deleteObject mem

/-- `FS_ActionRenameObject`. -/
def actionRenameObject (s : State) (v p : Addr) (mem : Option Addr) : Option State :=
  let pkt := s.pkts p
  let len1 := s.bstrLen pkt.arg2
  let len2 := s.bstrLen pkt.arg4
  s.request v p .renameObject (len1 + len2) mem fun req =>
    ({ req with arg1 := s.lockKey pkt.arg1 }.appendArg 2 len1 (s.bstr pkt.arg2)).bind fun req =>
      { req with arg3 := s.lockKey pkt.arg3 }.appendArg 4 len2 (s.bstr pkt.arg4)

/-- `FS_ActionFHFromLock`. -/
def actionFhFromLock (s : State) (v p : Addr) (mem : Option Addr) : Option State :=
  s.request v p .fhFromLock 0 mem fun req => some { req with arg2 := s.lockKey (s.pkts p).arg2 }

/-- `FS_HandlePacket`. What `APB_AllocObject` answers for requests, in order, is `mems`, and for a lock `lock`. -/
def handlePacket (s : State) (v p : Addr) (mems : List (Option Addr)) (lock : Option Addr) : Option State :=
  let mem := mems.head?.join
  let reply (s : State) : State := s.replyToDosPacket v none p
  if (s.vols v).mounted then
    match (s.pkts p).type with
    | .locateObject => s.actionLocateObject v p mem
    | .freeLock => s.actionFreeLock v p mem
    | .copyDir => some (reply (s.actionCopyDir v p lock))
    | .sameLock => s.actionSameLock v p mem
    | .isFilesystem => some (reply (s.setRes p dosTrue 0))
    | .diskInfo | .info => s.actionInfo v p mem
    | .setProtect | .setComment | .setDate => some (reply (s.setRes p dosTrue 0))
    | .findInput | .findOutput | .findUpdate | .flush => s.actionOpen v p mem
    | .end => (s.actionEnd v p mem).map reply
    | .examineObject => s.actionExamine v p mem
    | .examineNext => s.actionExamineNext v p mem
    | .examineFh => s.actionExamineFh v p mem
    | .parent => s.actionParent v p mem
    | .read => s.actionRead v p mem
    | .write => s.actionWrite v p mems
    | .seek => s.actionSeek v p mem
    | .parentFh => s.actionParentFh v p mem
    | .fhFromLock => s.actionFhFromLock v p mem
    | .createDir => s.actionCreateDir v p mem
    | .deleteObject => s.actionDeleteObject v p mem
    | .renameObject => s.actionRenameObject v p mem
    | .currentVolume => some (reply (s.setRes p (mkbaddr (s.vols v).vol) 0))
    | .other _ => some (reply (s.setRes p dosFalse errorActionNotKnown))
  else
    match (s.pkts p).type with
    | .freeLock => s.actionFreeLock v p mem
    | .diskInfo => (s.actionInfo v p mem).map reply
    | _ => some (reply (s.setRes p dosFalse errorDeviceNotMounted))

/-- `FS_ReceiveDosMessage`, for the next message on the port. -/
def receiveDosMessage (s : State) (v : Addr) (mems : List (Option Addr)) (lock : Option Addr) : Option State :=
  match s.msgs.find? fun m => m.1 = v with
  | none => none
  | some m => { s with msgs := s.msgs.erase m }.handlePacket v m.2 mems lock

/-! ## From responses to replies -/

/-- `FS_ActionLocateObjectReply`. -/
def actionLocateObjectReply (s : State) (v : Addr) (res : FsResponse) (p : Addr) (lock : Option Addr) : State :=
  if res.res1 = dosFalse then s.setRes p res.res1 res.res2
  else match s.allocLock v lock with
    | (none, s) => s.setRes p dosFalse errorNoFreeStore
    | (some l, s) =>
      (s.setLock l { s.locks l with
        key := res.res1, access := (s.pkts p).arg3, task := .volume v
        volume := mkbaddr (s.vols v).vol }).setRes p (mkbaddr l) 0

/-- `FS_ActionFreeLockReply`. -/
def actionFreeLockReply (s : State) (v p : Addr) : State :=
  let arg1 := (s.pkts p).arg1
  (if arg1 ≠ 0 then s.freeLock v (baddr arg1) else s).setRes1 p dosTrue

/-- `FS_ActionInfoReply`. -/
def actionInfoReply (s : State) (p : Addr) : State := s.setRes1 p dosTrue

/-- `FS_ActionOpenReply`. -/
def actionOpenReply (s : State) (res : FsResponse) (p : Addr) : State :=
  let fh := baddr (s.pkts p).arg1
  if res.res1 = dosTrue then
    { s.setRes1 p res.res1 with mem := setLong s.mem (fh + offsetofFhArg1) res.res2 }
  else s.setRes p res.res1 res.res2

/-- `FS_ActionExamineReply`. -/
def actionExamineReply (s : State) (res : FsResponse) (p : Addr) : State :=
  if res.res1 = dosTrue then
    { s.setRes1 p res.res1 with mem := copyMem s.mem res.data (baddr (s.pkts p).arg2) 224 }
  else s.setRes p res.res1 res.res2

/-- `FS_ActionReadReply`. The buffer of the caller has as many bytes as the packet asks for. -/
def actionReadReply (s : State) (v : Addr) (res : FsResponse) (p : Addr) : Option State :=
  let pkt := s.pkts p
  let copied :=
    if res.res1 > 0 then
      if pkt.arg3.toNat < pkt.res1.toNat + res.res1.toNat then none
      else some { s.setRes p (pkt.res1 + res.res1) 0 with
        mem := copyMem s.mem res.data (pkt.arg2 + pkt.res1) res.res1.toNat }
    else some s
  copied.map fun s =>
    if res.res2 = 0 then s
    else if res.res2 = minusOne then s.replyToDosPacket v (some res.req) p
    else (s.setRes p res.res1 res.res2).replyToDosPacket v (some res.req) p

/-- `FS_ActionWriteReply`. -/
def actionWriteReply (s : State) (v : Addr) (res : FsResponse) (p : Addr) : State :=
  let s := if res.res1 > 0 then s.setRes p ((s.pkts p).res1 + res.res1) 0 else s
  if res.res2 = 0 then s
  else if res.res2 = minusOne then s.replyToDosPacket v (some res.req) p
  else (s.setRes p res.res1 res.res2).replyToDosPacket v (some res.req) p

/-- `FS_ActionFHFromLockReply`. -/
def actionFhFromLockReply (s : State) (v : Addr) (res : FsResponse) (p : Addr) : State :=
  let fh := baddr (s.pkts p).arg1
  if res.res1 = dosTrue then
    ({ s with mem := setLong s.mem (fh + offsetofFhArg1) res.res2 }.freeLock v fh).setRes p res.res1 0
  else s.setRes p res.res1 res.res2

/-- `FS_ActionCreateDirReply`. It goes through the null pointer when there was no memory for the lock. -/
def actionCreateDirReply (s : State) (v : Addr) (res : FsResponse) (p : Addr) (lock : Option Addr) : Option State :=
  let s := s.actionLocateObjectReply v res p lock
  if res.res1 ≠ dosFalse then
    let l := baddr (s.pkts p).res1
    if l = 0 then none else some (s.setLock l { s.locks l with access := sharedLock })
  else some s

/-- `FS_ReceiveRemoteMessage`. -/
def receiveRemoteMessage (s : State) (v : Addr) (res : FsResponse) (lock : Option Addr) : Option State :=
  let p := (s.reqs res.req).pkt
  let reply (s : State) : State := s.replyToDosPacket v (some res.req) p
  match (s.pkts p).type with
  | .locateObject | .parent | .parentFh => some (reply (s.actionLocateObjectReply v res p lock))
  | .freeLock => some (reply (s.actionFreeLockReply v p))
  | .diskInfo | .info => some (reply (s.actionInfoReply p))
  | .findInput | .findOutput | .findUpdate => some (reply (s.actionOpenReply res p))
  | .examineObject | .examineNext | .examineFh => some (reply (s.actionExamineReply res p))
  | .read => s.actionReadReply v res p
  | .write => some (s.actionWriteReply v res p)
  | .fhFromLock => some (reply (s.actionFhFromLockReply v res p))
  | .createDir => (s.actionCreateDirReply v res p lock).map reply
  | _ => some (reply (s.setRes p res.res1 res.res2))

/-- Whether more responses follow, which only a request to read has. -/
def more (s : State) (res : FsResponse) : Bool := (s.reqs res.req).type = .read ∧ res.res2 = 0

/-- `FS_ReceiveResponse`. What is read as the id of a volume is the upper half of the word after the key. -/
def receiveResponse (s : State) (res : FsResponse) (lock : Option Addr) (m : Mounting) : Option State :=
  let volId := (res.res1 >>> 16).toUInt16
  if res.req = mountVolumeKey then some (s.handleMountVolume volId m)
  else if res.req = unmountVolumeKey then some (s.handleUnmountVolume volId)
  else
    { s with
      links := s.links.remove (.request res.req)
      unanswered := if s.more res then s.unanswered else s.unanswered.erase res.req
      }.receiveRemoteMessage (s.reqs res.req).volume res lock

end State

/-! ## Steps -/

/-- What happens. -/
inductive Event where
  /-- DOS sends a packet to a volume. -/
  | arrive (v p : Addr) (pkt : DosPacket)
  /-- The client takes the next message from the port of a volume. -/
  | dos (v : Addr) (mems : List (Option Addr)) (lock : Option Addr)
  /-- It takes the reader from the remote port, with a response or an order to mount or unmount. -/
  | response (res : FsResponse) (lock : Option Addr) (m : State.Mounting)
  /-- It takes the reader with an error state, after which it does not read again. -/
  | readerError
  /-- It takes the writer from the remote port. -/
  | writerReply
  /-- Other tasks write to memory of their own. -/
  | poke (mem : Addr → UInt8) (locks : Addr → FsFileLock)

/-- One step. -/
def step (s : State) : Event → Option State
  | .arrive v p pkt =>
    some { s.setPkt p pkt with
      msgs := s.msgs ++ [(v, p)], out := s.out ++ [p], arrived := s.arrived ++ [p] }
  | .dos v mems lock => s.receiveDosMessage v mems lock
  | .response res lock m => s.receiveResponse res lock m
  | .readerError => some { s with reading := false }
  | .writerReply => { s with writeReady := true }.sendReq
  | .poke mem locks => some { s with mem := mem, locks := locks }

/-- Addresses of objects. -/
def ValidAddr (a : Addr) : Prop := a ≠ 0 ∧ a ≠ mountVolumeKey ∧ a ≠ unmountVolumeKey

instance (a : Addr) : Decidable (ValidAddr a) := by unfold ValidAddr; infer_instance

/-- The memory that is got for requests is not in use. -/
def FreshReqs (s : State) (mems : List (Option Addr)) : Prop :=
  mems.reduceOption.Nodup ∧ ∀ r ∈ mems.reduceOption, ValidAddr r ∧ r ∉ s.live.map Prod.fst

instance (s : State) (mems : List (Option Addr)) : Decidable (FreshReqs s mems) := by unfold FreshReqs; infer_instance

/-- The memory that is got for a lock is not in use, and there are never more than a hundred locks. -/
def FreshLock (s : State) (lock : Option Addr) : Prop :=
  ∀ l ∈ lock, l ≠ 0 ∧ l.toNat % 4 = 0 ∧ l ∉ s.liveLocks.map Prod.fst ∧ s.liveLocks.length < 100

instance (s : State) (lock : Option Addr) : Decidable (FreshLock s lock) := by unfold FreshLock; infer_instance

/-- The handler answers what it has been sent. -/
def LegalResponse (s : State) (res : FsResponse) : Prop :=
  res.req = mountVolumeKey ∨ res.req = unmountVolumeKey ∨ res.req ∈ s.unanswered

instance (s : State) (res : FsResponse) : Decidable (LegalResponse s res) := by
  unfold LegalResponse; infer_instance

/-- What the others may do. -/
def Legal (s : State) : Event → Prop
  | .arrive v p pkt => v ∈ s.volList ∧ p ∉ s.out ∧ pkt.port.isDos = true
  | .dos v mems lock => (∃ m ∈ s.msgs, m.1 = v) ∧ FreshReqs s mems ∧ FreshLock s lock
  | .response res lock m =>
    s.reading = true ∧ FreshLock s lock ∧ LegalResponse s res ∧ ∀ v ∈ m.mem, v ∉ s.volList
  | .readerError => s.reading = true
  | .writerReply => s.writeReady = false
  | .poke _ locks => ∀ l ∈ s.liveLocks, locks l.1 = s.locks l.1

instance (s : State) : (e : Event) → Decidable (Legal s e)
  | .arrive .. | .dos .. | .response .. | .readerError | .writerReply | .poke .. => by unfold Legal; infer_instance

/-- Of the chunks of a write, the handler answers the last one with a non-zero `r_Res2`, and the others with zero. -/
def ChunkEnds (s : State) : Event → Prop
  | .response res _ _ => res.req = mountVolumeKey ∨ res.req = unmountVolumeKey ∨
    ((s.reqs res.req).type = .write → (res.res2 = 0 ↔ (s.reqs res.req).arg3 ≠ 0))
  | _ => True

instance (s : State) : (e : Event) → Decidable (ChunkEnds s e)
  | .response .. => inferInstanceAs (Decidable (_ ∨ _ ∨ (_ → (_ ↔ _))))
  | .arrive .. | .dos .. | .readerError | .writerReply | .poke .. => .isTrue trivial

/-- The client after `FS_CreateDevice`. -/
def start (mem : Addr → UInt8) (pkts : Addr → DosPacket) (reqs : Addr → FsRequest) (locks : Addr → FsFileLock)
    (vols : Addr → Volume) (links : Links Node) : State where
  mem := mem
  pkts := pkts
  reqs := reqs
  locks := locks
  vols := vols
  links := (links.newList .null reqList).newList .null sentReqList
  volList := []
  writeReady := true
  reading := true
  msgs := []
  written := []
  queued := []
  unanswered := []
  live := []
  allocated := []
  freed := []
  out := []
  arrived := []
  replied := []
  liveLocks := []
  allocatedLocks := []
  freedLocks := []
  givenLocks := []

end AmiPiBorg.Fs
