import AmiPiBorg.Reader.Append
import AmiPiBorg.Lib.Runs

/-!
# Receiving (`server/server.c`)

The server owns one read buffer. Each completed read puts its bytes at the end of that buffer, `APB_ProcessBuffer` runs
on it, and a full buffer is replaced by a new one before the next read (`srvReceiveFromRemote`, `srvBeginRead`).
Packets are taken from the queue and later released in any order. `Rx.step` is one such event, a run is `runs`.

More fuel keeps the result of a read (`Rx.srvReceiveFromRemote_mono`).
-/

set_option autoImplicit false

namespace AmiPiBorg

open ProgLib

namespace Reader

/-- `APB_CreatePacketReader`, on whatever the memory holds. -/
def createPacketReader (ibs : IbPtr → InBuffer) (bufs : BufPtr → Buffer) : Reader :=
  { inBuf := none, queue := [], queueSize := 0, ibs := ibs, bufs := bufs, ibUse := [], bufUse := [] }

/-- The record `v` stored at the buffer `b`. -/
def setBuf (s : Reader) (b : BufPtr) (v : Buffer) : Reader := { s with bufs := Function.update s.bufs b v }

/-- `APB_AllocateBuffer`, where the pool answers `b`. -/
def allocateBuffer (s : Reader) (b : BufPtr) : Reader :=
  { s.setBuf b { s.bufs b with offset := 0 } with bufUse := b :: s.bufUse }

/-- A completed read: its bytes behind those of the buffer, and `b_Offset += bytesRead`. -/
def fill (s : Reader) (b : BufPtr) (bs : List UInt8) : Reader :=
  s.setBuf b
    { offset := (s.bufs b).offset + bs.length, data := (s.bufs b).data.store (s.bufs b).offset bs }

end Reader

/-- The receiving side of the server: the reader, `srv_ReadBuffer`, and the packets taken from the queue but not yet
released. -/
structure Rx where
  rd : Reader
  readBuffer : Option BufPtr
  held : List InPacket

namespace Rx

/-- `APB_SrvBeginRead`: a new read buffer if there is none or it is full. -/
def srvBeginRead (al : Reader.Alloc) (x : Rx) : Rx :=
  if x.readBuffer.all fun b => (x.rd.bufs b).offset = bufferSize then
    match al.buffer x.rd with
    | none => x
    | some b => { x with rd := x.rd.allocateBuffer b, readBuffer := some b }
  else x

/-- `APB_SrvReceiveFromRemote`, up to the handling of the packets, when the read has brought `bs`. No read brings more
than it has asked for. -/
def srvReceiveFromRemote (fuel : Nat) (al : Reader.Alloc) (x : Rx) (bs : List UInt8) : Option Rx :=
  if bs = [] then some x
  else match x.readBuffer with
    | none => none
    | some b =>
      if bufferSize < (x.rd.bufs b).offset + bs.length then none
      else ((x.rd.fill b bs).processBuffer fuel al b).map fun rd => srvBeginRead al { x with rd := rd }

/-- What happens to the receiving side. -/
inductive Event where
  | receive (al : Reader.Alloc) (bs : List UInt8)
  | dequeue
  | release (i : Nat)

/-- One event. -/
def step (fuel : Nat) (x : Rx) : Event → Option Rx
  | .receive al bs => x.srvReceiveFromRemote fuel al bs
  | .dequeue =>
    let r := x.rd.dequeueInPacket
    some { x with rd := r.2, held := x.held ++ r.1.toList }
  | .release i =>
    match x.held[i]? with
    | none => none
    | some ip => some { x with rd := x.rd.releaseInPacket ip, held := x.held.eraseIdx i }

/-- The server before its first read. -/
def start (al : Reader.Alloc) (ibs : IbPtr → InBuffer) (bufs : BufPtr → Buffer) : Rx :=
  srvBeginRead al { rd := .createPacketReader ibs bufs, readBuffer := none, held := [] }

/-- The bytes that arrive. -/
def received : List Event → List UInt8
  | [] => []
  | .receive _ bs :: es => bs ++ received es
  | _ :: es => received es

/-- The packets that were queued and are not released, in order. -/
def unreleased (x : Rx) : List InPacket := x.held ++ x.rd.queue

end Rx

/-! ## Pools -/

namespace Reader.Alloc

/-- No pool is ever empty. -/
structure Succeeds (al : Alloc) : Prop where
  inBuffer : ∀ s, (al.inBuffer s).isSome
  inPacket : ∀ s, al.inPacket s = true
  buffer : ∀ s, (al.buffer s).isSome

/-- Pools that hand out ever new objects. -/
def unbounded : Alloc where
  inBuffer s := some (s.ibUse.foldr max 0 + 1)
  inPacket _ := true
  buffer s := some (s.bufUse.foldr max 0 + 1)
  inBuffer_fresh := by
    rintro s p ⟨⟩ hp
    exact absurd (le_foldr_max hp) (by omega)
  buffer_fresh := by
    rintro s p ⟨⟩ hp
    exact absurd (le_foldr_max hp) (by omega)

theorem unbounded_succeeds : unbounded.Succeeds := ⟨fun _ => rfl, fun _ => rfl, fun _ => rfl⟩

end Reader.Alloc

/-! ## The read buffer -/

namespace Rx

open Reader

theorem start_eq {al : Alloc} (hal : al.Succeeds) (ibs : IbPtr → InBuffer) (bufs : BufPtr → Buffer) :
    ∃ b, start al ibs bufs = ⟨(createPacketReader ibs bufs).allocateBuffer b, some b, []⟩ := by
  obtain ⟨b, hb⟩ := Option.isSome_iff_exists.1 (hal.buffer (createPacketReader ibs bufs))
  exact ⟨b, by simp only [start, srvBeginRead, Option.all_none, if_true, hb]⟩

section BeginRead

variable {al : Alloc} {rd : Reader} {b : BufPtr} (held : List InPacket)

theorem beginRead_room (h : (rd.bufs b).offset ≠ bufferSize) :
    srvBeginRead al ⟨rd, some b, held⟩ = ⟨rd, some b, held⟩ := by
  simp only [srvBeginRead, Option.all_some, h, decide_false, Bool.false_eq_true, if_false]

theorem beginRead_full (hal : al.Succeeds) (h : (rd.bufs b).offset = bufferSize) :
    ∃ c, c ∉ rd.bufUse ∧ srvBeginRead al ⟨rd, some b, held⟩ = ⟨rd.allocateBuffer c, some c, held⟩ := by
  obtain ⟨c, hc⟩ := Option.isSome_iff_exists.1 (hal.buffer rd)
  exact ⟨c, al.buffer_fresh _ _ hc, by simp only [srvBeginRead, Option.all_some, h, decide_true, if_true, hc]⟩

/-- A new read buffer, or none is needed or to be had. -/
theorem beginRead_cases (al : Alloc) (x : Rx) : srvBeginRead al x = x ∨ ∃ c, c ∉ x.rd.bufUse ∧
    srvBeginRead al x = { x with rd := x.rd.allocateBuffer c, readBuffer := some c } := by
  unfold srvBeginRead
  split
  · cases hc : al.buffer x.rd with
    | none => exact .inl rfl
    | some c => exact .inr ⟨c, al.buffer_fresh _ _ hc, rfl⟩
  · exact .inl rfl

end BeginRead

/-- Taking a packet from the queue moves it to those that are held. -/
theorem dequeue_cases (s : Reader) : ∃ q n, s.dequeueInPacket.2 = { s with queue := q, queueSize := n } ∧
    s.dequeueInPacket.1.toList ++ q = s.queue := by
  unfold dequeueInPacket
  split
  · exact ⟨s.queue, s.queueSize, rfl, rfl⟩
  · exact ⟨s.queue.tail, _, rfl, by cases s.queue <;> rfl⟩

/-- What a completed read does. -/
theorem receive_cases {fuel : Nat} {al : Alloc} {x x' : Rx} {bs : List UInt8}
    (h : x.srvReceiveFromRemote fuel al bs = some x') : bs = [] ∧ x' = x ∨
      ∃ b rd, bs ≠ [] ∧ x.readBuffer = some b ∧ (x.rd.bufs b).offset + bs.length ≤ bufferSize ∧
        (x.rd.fill b bs).processBuffer fuel al b = some rd ∧ x' = srvBeginRead al { x with rd := rd } := by
  simp only [srvReceiveFromRemote] at h
  split at h
  · rename_i hbs
    cases h
    exact .inl ⟨hbs, rfl⟩
  · rename_i hbs
    split at h
    · cases h
    · rename_i b hb
      split at h
      · cases h
      · rename_i hfit
        obtain ⟨rd, hp, rfl⟩ := Option.map_eq_some_iff.1 h
        exact .inr ⟨b, rd, hbs, hb, Nat.not_lt.1 hfit, hp, rfl⟩

end Rx

/-! ## Fuel -/

namespace Reader

theorem appendBuffer_mono {n m : Nat} {al : Alloc} {s : Reader} {b : BufPtr} {r : Reader × Bool}
    (h : s.appendBuffer n al b = some r) (hm : n ≤ m) : s.appendBuffer m al b = some r := by
  simp only [appendBuffer] at h ⊢
  obtain ⟨found, hf, h⟩ := Option.bind_eq_some_iff.1 h
  rw [Loop.run_mono hf hm, Option.bind_some]
  cases found with
  | true => exact h
  | false =>
    simp only at h ⊢
    cases hal : al.inBuffer s with
    | none => rwa [hal] at h
    | some ib =>
      simp only [hal] at h ⊢
      cases hi : s.inBuf with
      | none => rwa [hi] at h
      | some p =>
        simp only [hi] at h ⊢
        obtain ⟨r', hr, rfl⟩ := Option.map_eq_some_iff.1 h
        rw [Loop.run_mono hr hm, Option.map_some]

theorem processBuffer_mono {n m : Nat} {al : Alloc} {s s' : Reader} {b : BufPtr}
    (h : s.processBuffer n al b = some s') (hm : n ≤ m) : s.processBuffer m al b = some s' := by
  simp only [processBuffer] at h ⊢
  obtain ⟨r, hr, h⟩ := Option.bind_eq_some_iff.1 h
  rw [appendBuffer_mono hr hm, Option.bind_some]
  split at h
  · rename_i hb
    rw [if_pos hb]
    exact Loop.run_mono h hm
  · rename_i hb
    rwa [if_neg hb]

end Reader

namespace Rx

/-- With more fuel a read ends as it did. -/
theorem srvReceiveFromRemote_mono {n m : Nat} {al : Reader.Alloc} {x x' : Rx} {bs : List UInt8}
    (h : x.srvReceiveFromRemote n al bs = some x') (hm : n ≤ m) : x.srvReceiveFromRemote m al bs = some x' := by
  obtain ⟨rfl, rfl⟩ | ⟨b, rd, hne, hb, hfit, hp, rfl⟩ := receive_cases h
  · rfl
  · simp only [srvReceiveFromRemote, if_neg hne, hb, if_neg (Nat.not_lt.2 hfit), Reader.processBuffer_mono hp hm,
      Option.map_some]

end Rx

end AmiPiBorg
