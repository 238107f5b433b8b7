import AmiPiBorg.Lib.Runs
import AmiPiBorg.Writer.Send

/-!
# Transmitting packets

A `Tx` is a packet writer with the line that it writes to. Packets are allocated and filled in, buffers are written,
writes end, and packets are asked for again, in any order.

* `wire_prefix_allocated`: what is on the wire are the allocated packets, in order, as far as they are sent.
* `transmit_stable`: a write keeps its buffer and its bytes until it ends, as long as a packet of the buffer stays among
  the recent ones; `early_reuse` is a run in which it does not.
* `outBuffers_kept`: no buffer is lost, as long as no buffer leaves the queue after its last packet was dropped;
  `lost_outBuffer` is a run in which one does.
* `resend_honoured_iff`: a request for a packet is honoured exactly when the packet is not there any more.
-/

set_option autoImplicit false

namespace AmiPiBorg

open ProgLib

/-- A packet writer and the line. -/
structure Tx where
  wr : Writer
  /-- All the bytes that `REM_Write` was given. -/
  wire : List UInt8
  /-- The write that has not ended. -/
  inFlight : Option Writer.Write
  /-- Ghost: the packets that were allocated, as their callers filled them in. -/
  allocated : List Incoming

namespace Tx

open Writer

/-- What can happen to a writer. -/
inductive Event where
  /-- `APB_AllocPacket`, or `APB_AllocPacketWithId` with an id, and the caller that fills in the packet. -/
  | alloc (al : Alloc) (packId : Option UInt16) (length : Nat) (type : UInt8) (connId : UInt16) (payload : Mem)
  /-- `APB_WriteBuffer`. -/
  | write
  /-- The write ends. -/
  | complete
  /-- `APB_ResendPacket`. -/
  | resend (al : Alloc) (packId : UInt16)

/-- The line, and a writer that `APB_CreatePacketWriter` made. -/
def start (obs : ObPtr → OutBuffer) (bufs : BufPtr → Buffer) : Tx :=
  { wr := createPacketWriter obs bufs, wire := [], inFlight := none, allocated := [] }

/-- `APB_AllocPacketWithId`, or `APB_AllocPacket` if there is no id. -/
def allocate (al : Alloc) (s : Writer) (length : Nat) : Option UInt16 → Option (Writer × Option Addr)
  | none => s.allocPacket al length
  | some packId => s.allocPacketWithId al length packId

/-- The packet id that an allocation takes, and the writer that it works on. -/
def asked (s : Writer) : Option UInt16 → Writer × UInt16
  | none => ({ s with nextPackId := s.nextPackId + 1 }, s.nextPackId)
  | some packId => (s, packId)

/-- The caller of an allocation fills in the packet that it gets. -/
def place (x : Tx) (type : UInt8) (connId packId : UInt16) (data : List UInt8) : Writer × Option Addr → Tx
  | (w, none) => { x with wr := w }
  | (w, some p) =>
    { x with wr := w.fill p type connId data, allocated := x.allocated ++ [filled type connId packId data] }

/-- One event. -/
def step (x : Tx) : Event → Option Tx
  | .alloc al packId length type connId payload =>
    (allocate al x.wr length packId).map
      (x.place type connId (asked x.wr packId).2 (payload.slice 0 (length - sizeofPacket)))
  | .write => x.wr.writeBuffer.map fun r =>
      { x with wr := r.1, wire := x.wire ++ (r.2.map Write.bytes).getD [], inFlight := r.2.or x.inFlight }
  | .complete => some { x with inFlight := none }
  | .resend al packId => (x.wr.resendPacket al packId).map fun w => { x with wr := w }

/-- A packet that an allocation has handed out. -/
structure Handed where
  pac : Addr
  length : Nat
  packId : UInt16
  /-- The id is one of `pw_NextPackId`. -/
  own : Bool
  deriving DecidableEq

/-- The packet that a step hands out. -/
def handedBy (x : Tx) : Event → List Handed
  | .alloc al packId length .. => ((allocate al x.wr length packId).bind Prod.snd).toList.map fun p =>
      ⟨p, length, (asked x.wr packId).2, packId.isNone⟩
  | _ => []

/-- All the packets that were handed out. -/
def handed (x : Tx) (es : List Event) : List Handed := noted (fun x e h => h ++ handedBy x e) step [] x es

/-- The invariant: the wire carries the packets that are sent, and the listed ones are the last that were allocated. -/
structure Inv (x : Tx) (S U : List Listed) : Prop extends x.wr.Valid S U where
  wire : ∃ ps : List WirePacket, x.wire = ps.flatMap WirePacket.bytes ∧
    x.allocated = ps.map WirePacket.incoming ++ U.map Prod.snd

variable {x x' : Tx} {S U : List Listed}

theorem start_inv (obs : ObPtr → OutBuffer) (bufs : BufPtr → Buffer) : (start obs bufs).Inv [] [] :=
  ⟨⟨⟨.start obs bufs, fun _ h => (by cases h), .nil⟩, rfl, rfl⟩, [], rfl, rfl⟩

/-! ## Steps -/

theorem allocate_eq (al : Alloc) (s : Writer) (length : Nat) (packId : Option UInt16) :
    allocate al s length packId = allocPacketWithId al (asked s packId).1 length (asked s packId).2 := by
  cases packId <;> rfl

section Asked

variable (s : Writer) (packId : Option UInt16)

theorem valid_asked {s : Writer} (v : s.Valid S U) : (asked s packId).1.Valid S U := by
  cases packId with
  | none => exact ⟨v.toGood.congr rfl rfl rfl rfl rfl rfl rfl, v.recents, v.recentCount⟩
  | some packId => exact v

theorem keeps_asked (os : List ObPtr) : Keeps s (asked s packId).1 os := by
  cases packId with
  | none => exact .of_eq rfl rfl rfl
  | some packId => exact .refl _ _

theorem queue_asked : (asked s packId).1.queue = s.queue := by cases packId <;> rfl

theorem recentCount_asked : (asked s packId).1.recentCount = s.recentCount := by cases packId <;> rfl

end Asked

/-- **The step of an allocation**: nothing is handed out, or one packet more is listed, and then old ones are dropped. -/
theorem step_alloc_handed (v : x.Inv S U) (al : Alloc) (packId : Option UInt16) (length : Nat) (type : UInt8)
    (connId : UInt16) (payload : Mem) : ∃ x', step x (.alloc al packId length type connId payload) = some x' ∧
      x'.inFlight = x.inFlight ∧ (∀ c ∈ x.wr.queue, c ∈ x'.wr.queue) ∧ Keeps x.wr x'.wr (owners (S ++ U)) ∧
      (handedBy x (.alloc al packId length type connId payload) = [] ∧ x'.Inv S U ∧ x'.allocated = x.allocated ∧
          (al.Succeeds → x.wr.Tight (owners (S ++ U)) → x'.wr.Tight (owners (S ++ U))) ∨
        ∃ ob p k y, handedBy x (.alloc al packId length type connId payload) =
            [⟨p, length, (asked x.wr packId).2, packId.isNone⟩] ∧ y.1 = ⟨ob, p, false⟩ ∧
          y.2.packId = (asked x.wr packId).2 ∧ Allocates al (asked x.wr packId).1 length ∧ k ≤ S.length ∧
          k ≤ x.wr.recentCount - recentPacketsToKeep ∧ x'.Inv (S.drop k) (U ++ [y]) ∧
          x'.allocated = x.allocated ++ [y.2] ∧
          (al.Succeeds → x.wr.Tight (owners (S ++ U)) → x'.wr.Tight (owners (S.drop k ++ (U ++ [y]))))) := by
  obtain ⟨w, r, halloc, hq, hcase⟩ :=
    alloc_valid al (valid_asked packId v.toValid) length (asked x.wr packId).2
  have hlive : ∀ c, x.wr.Live (owners (S ++ U)) c → (asked x.wr packId).1.Live (owners (S ++ U)) c := fun c hc => by
    unfold Live
    rwa [queue_asked]
  rw [queue_asked] at hq
  have hstep : step x (.alloc al packId length type connId payload) =
      some (x.place type connId (asked x.wr packId).2 (payload.slice 0 (length - sizeofPacket)) (w, r)) := by
    unfold step
    dsimp only
    rw [allocate_eq, halloc, Option.map_some]
  have hhand : handedBy x (.alloc al packId length type connId payload) =
      r.toList.map fun p => ⟨p, length, (asked x.wr packId).2, packId.isNone⟩ := by
    unfold handedBy
    dsimp only
    rw [allocate_eq, halloc]
    rfl
  obtain ⟨ps, hwire, hall⟩ := v.wire
  have htight : x.wr.Tight (owners (S ++ U)) → (asked x.wr packId).1.Tight (owners (S ++ U)) := fun h => by
    cases packId with
    | none => exact h.congr rfl rfl (fun _ => rfl) fun _ h => h
    | some packId => exact h
  rcases hcase with ⟨rfl, hv, hk, ht⟩ | ⟨ob, p, k, rfl, hal, hkS, hkc, hfill⟩
  · exact ⟨_, hstep, rfl, hq, (keeps_asked x.wr packId _).trans hk hlive,
      .inl ⟨hhand, ⟨hv, ps, hwire, hall⟩, rfl, fun hs h => ht hs (htight h)⟩⟩
  · obtain ⟨hv, hk, ht⟩ := hfill type connId (payload.slice 0 (length - sizeofPacket)) (Mem.length_slice ..)
    rw [recentCount_asked] at hkc
    refine ⟨_, hstep, rfl, hq, (keeps_asked x.wr packId _).trans hk hlive,
      .inr ⟨ob, p, k, _, hhand, rfl, rfl, hal, hkS, hkc, ⟨hv, ps, hwire, ?_⟩, rfl, fun hs h => ht hs (htight h)⟩⟩
    rw [List.map_append, ← List.append_assoc, ← hall]
    rfl

/-- The step of an allocation: nothing is allocated, or one packet more, and then old ones are dropped. -/
theorem step_alloc (v : x.Inv S U) (al : Alloc) (packId : Option UInt16) (length : Nat) (type : UInt8) (connId : UInt16)
    (payload : Mem) : ∃ x' S' U', step x (.alloc al packId length type connId payload) = some x' ∧ x'.Inv S' U' ∧
      x'.inFlight = x.inFlight ∧ (∀ c ∈ x.wr.queue, c ∈ x'.wr.queue) ∧ Keeps x.wr x'.wr (owners (S ++ U)) ∧
      (al.Succeeds → x.wr.Tight (owners (S ++ U)) → x'.wr.Tight (owners (S' ++ U'))) ∧ (S' = S ∧ U' = U ∨ Allocates al (asked x.wr packId).1 length ∧
        ∃ k y, S' = S.drop k ∧ U' = U ++ [y] ∧ k ≤ S.length ∧ k ≤ x.wr.recentCount - recentPacketsToKeep) := by
  obtain ⟨x', hstep, hfly, hq, hk, hcase⟩ := step_alloc_handed v al packId length type connId payload
  rcases hcase with ⟨-, hv, -, ht⟩ | ⟨-, -, k, y, -, -, -, hal, hkS, hkc, hv, -, ht⟩
  · exact ⟨x', S, U, hstep, hv, hfly, hq, hk, ht, .inl ⟨rfl, rfl⟩⟩
  · exact ⟨x', _, _, hstep, hv, hfly, hq, hk, ht, .inr ⟨hal, k, y, rfl, rfl, hkS, hkc⟩⟩

/-- **The step of a write**: the packets that it hands over are marked. -/
theorem step_write_marked (v : x.Inv S U) : ∃ x' U₁ U₂, U = U₁ ++ U₂ ∧ step x .write = some x' ∧
    x'.Inv (S ++ U₁.map mark) U₂ ∧ x'.allocated = x.allocated ∧ Keeps x.wr x'.wr (owners (S ++ U)) ∧
    SameUse x.wr x'.wr ∧ (x'.wr.queue = x.wr.queue ∨ 1 < x.wr.bufCount ∧ ∃ ob, x.wr.queue = ob :: x'.wr.queue) ∧
    (x'.inFlight = x.inFlight ∨ ∃ w, x'.inFlight = some w ∧ w.outBuf ∈ owners (S ++ U) ∧
      x'.wr.Flying (owners (S ++ U)) w) := by
  obtain ⟨U₁, U₂, w, r, hU, hwrite, hv, hk, ⟨qs, hqs, hbytes, -⟩, hfly, huse, hqueue, -⟩ := writeBuffer_valid v.toValid
  obtain ⟨ps, hwire, hall⟩ := v.wire
  have hstep : step x .write = some { x with
      wr := w, wire := x.wire ++ (r.map Write.bytes).getD [], inFlight := r.or x.inFlight } := by
    unfold step
    rw [hwrite]
    rfl
  refine ⟨_, U₁, U₂, hU, hstep, ⟨hv, ps ++ qs, ?_, ?_⟩, rfl, hk, huse, hqueue, ?_⟩
  · dsimp only
    rw [hwire, hbytes, List.flatMap_append]
  · dsimp only
    rw [hall, hU, List.map_append, List.map_append, hqs, List.append_assoc]
  · cases r with
    | none => exact .inl rfl
    | some w => exact .inr ⟨w, rfl, hfly w rfl⟩

/-- The step of a write. -/
theorem step_write (v : x.Inv S U) : ∃ x' S' U', step x .write = some x' ∧ x'.Inv S' U' ∧
    owners (S' ++ U') = owners (S ++ U) ∧ Keeps x.wr x'.wr (owners (S ++ U)) ∧ SameUse x.wr x'.wr ∧
    (x'.wr.queue = x.wr.queue ∨ 1 < x.wr.bufCount ∧ ∃ ob, x.wr.queue = ob :: x'.wr.queue) ∧
    (x'.inFlight = x.inFlight ∨ ∃ w, x'.inFlight = some w ∧ w.outBuf ∈ owners (S ++ U) ∧
      x'.wr.Flying (owners (S ++ U)) w) := by
  obtain ⟨x', U₁, U₂, hU, hstep, hv, -, hrest⟩ := step_write_marked v
  refine ⟨x', _, _, hstep, hv, ?_, hrest⟩
  rw [hU, owners_marked]

/-- No packet is ever found again: the identifier of every packet is `PACKET_ID`, which is no packet id. -/
theorem resendPacket_eq {s : Writer} (v : s.Valid S U) (al : Alloc) (packId : UInt16) :
    s.resendPacket al packId = some s := by
  have hnone : s.recents.find? (fun op => (s.header op.pac).id = packId.toUInt32) = none := by
    rw [List.find?_eq_none]
    intro op hop
    rw [v.recents] at hop
    obtain ⟨y, hy, rfl⟩ := List.mem_map.1 hop
    have hid : (s.header y.1.pac).id = packetId := (v.shows y hy).id
    have hlt := packId.toNat_lt
    simp only [hid, decide_eq_true_eq]
    intro he
    have := congrArg UInt32.toNat he
    rw [UInt16.toNat_toUInt32] at this
    have hp : packetId.toNat = 0x416d5069 := rfl
    omega
  unfold resendPacket
  rw [hnone]

/-- Every event is possible and keeps the invariant. -/
theorem step_inv (v : x.Inv S U) (e : Event) : ∃ x', step x e = some x' ∧ ∃ S' U', x'.Inv S' U' := by
  cases e with
  | alloc al packId length type connId payload =>
    obtain ⟨x', S', U', hstep, hv, -⟩ := step_alloc v al packId length type connId payload
    exact ⟨x', hstep, S', U', hv⟩
  | write =>
    obtain ⟨x', S', U', hstep, hv, -⟩ := step_write v
    exact ⟨x', hstep, S', U', hv⟩
  | complete => exact ⟨_, rfl, S, U, v.toValid, v.wire⟩
  | resend al packId =>
    refine ⟨x, ?_, S, U, v⟩
    unfold step
    dsimp only
    rw [resendPacket_eq v.toValid]
    rfl

/-- Every state that is reached has the invariant. -/
theorem reached_inv (obs : ObPtr → OutBuffer) (bufs : BufPtr → Buffer) (es : List Event) :
    ∃ x : Tx, runs step (start obs bufs) es = some x ∧ ∃ S U : List Listed, x.Inv S U :=
  runs_total (fun x : Tx => ∃ S U, x.Inv S U) (fun _ e ⟨_, _, v⟩ => step_inv v e) es ⟨[], [], start_inv obs bufs⟩

/-- **What is on the wire are the allocated packets**, in order, each once, as far as they are sent. -/
theorem wire_prefix_allocated (obs : ObPtr → OutBuffer) (bufs : BufPtr → Buffer) (es : List Event) :
    ∃ x : Tx, runs step (start obs bufs) es = some x ∧ ∃ ps : List WirePacket, x.wire = ps.flatMap WirePacket.bytes ∧
      ps.map WirePacket.incoming <+: x.allocated := by
  obtain ⟨x, hx, S, U, v⟩ := reached_inv obs bufs es
  obtain ⟨ps, hwire, hall⟩ := v.wire
  exact ⟨x, hx, ps, hwire, U.map Prod.snd, hall.symm⟩

/-! ## Writes in flight -/

/-- The write in flight reads from a buffer that is in use, with the bytes that it began with. -/
def Unharmed (x : Tx) : Prop :=
  ∀ w ∈ x.inFlight, w.outBuf ∈ x.wr.obUse ∧ w.data.1 ∈ x.wr.bufUse ∧
    (x.wr.bufs w.data.1).data.slice w.data.2 w.bytes.length = w.bytes

instance (x : Tx) : Decidable x.Unharmed := inferInstanceAs (Decidable (∀ w ∈ x.inFlight, _))

/-- Writes are begun one at a time, as `REM_CanWrite` makes sure. -/
def CanWrite (x : Tx) : Event → Prop
  | .write => x.inFlight = none
  | _ => True

instance (x : Tx) (e : Event) : Decidable (CanWrite x e) :=
  match e with
  | .write => inferInstanceAs (Decidable (x.inFlight = none))
  | .alloc .. => inferInstanceAs (Decidable True)
  | .complete => inferInstanceAs (Decidable True)
  | .resend .. => inferInstanceAs (Decidable True)

/-- Writes are begun one at a time. While one is in flight from a buffer that has left the queue, a packet is allocated
only if a packet of that buffer is among those that stay listed. -/
def SafeStep (x : Tx) : Event → Prop
  | .write => x.inFlight = none
  | .alloc al packId length _ _ _ => ∀ w ∈ x.inFlight, w.outBuf ∉ x.wr.queue →
    Allocates al (asked x.wr packId).1 length →
      ∃ op ∈ x.wr.recents.drop (x.wr.recentCount - recentPacketsToKeep), op.outBuf = w.outBuf
  | _ => True

instance (x : Tx) (e : Event) : Decidable (SafeStep x e) :=
  match e with
  | .write => inferInstanceAs (Decidable (x.inFlight = none))
  | .alloc al packId length _ _ _ =>
    have : Decidable (Allocates al (asked x.wr packId).1 length) := inferInstanceAs (Decidable (_ ∧ _ ∧ _ ∧ _))
    inferInstanceAs (Decidable (∀ w ∈ x.inFlight, _ → _ → ∃ op ∈ _, _))
  | .complete => inferInstanceAs (Decidable True)
  | .resend .. => inferInstanceAs (Decidable True)

/-- The write in flight, if there is one, has what it needs. -/
def Aloft (x : Tx) (S U : List Listed) : Prop := ∀ w ∈ x.inFlight, x.wr.Flying (owners (S ++ U)) w

theorem step_aloft (v : x.Inv S U) (h : x.Aloft S U) {e : Event} (hok : SafeStep x e) (he : step x e = some x') :
    ∃ S' U', x'.Inv S' U' ∧ x'.Aloft S' U' := by
  cases e with
  | alloc al packId length type connId payload =>
    obtain ⟨x₁, S', U', hstep, hv, hfly, hq, hk, -, hcase⟩ := step_alloc v al packId length type connId payload
    rw [he, Option.some.injEq] at hstep
    subst hstep
    refine ⟨S', U', hv, fun w hw => ?_⟩
    rw [hfly] at hw
    have hf := h w hw
    apply hf.keeps hk
    by_cases hwq : w.outBuf ∈ x.wr.queue
    · exact .inl (hq _ hwq)
    rcases hcase with ⟨rfl, rfl⟩ | ⟨hal, k, y, rfl, rfl, hkS, hkc⟩
    · exact .inr (hf.live.resolve_left hwq)
    · -- the packet that stays listed is behind those that are dropped
      obtain ⟨op, hop, ho⟩ := hok w hw hwq hal
      have hop' := List.drop_subset_drop_left _ hkc hop
      rw [v.recents, ← List.map_drop, List.drop_append_of_le_length hkS] at hop'
      obtain ⟨z, hz, rfl⟩ := List.mem_map.1 hop'
      rw [← ho, ← List.append_assoc]
      exact .inr (mem_owners (List.mem_append_left _ hz))
  | write =>
    obtain ⟨x₁, S', U', hstep, hv, howners, hk, huse, hq, hfly⟩ := step_write v
    rw [he, Option.some.injEq] at hstep
    subst hstep
    refine ⟨S', U', hv, fun w hw => ?_⟩
    rw [howners]
    rcases hfly with hsame | ⟨w', hw', hm, hf⟩
    · rw [hsame, show x.inFlight = none from hok] at hw
      cases hw
    · rw [hw'] at hw
      cases hw
      exact hf
  | complete =>
    cases he
    exact ⟨S, U, ⟨v.toValid, v.wire⟩, fun w hw => by cases hw⟩
  | resend al packId =>
    unfold step at he
    dsimp only at he
    rw [resendPacket_eq v.toValid] at he
    cases he
    exact ⟨S, U, ⟨v.toValid, v.wire⟩, h⟩

theorem Aloft.unharmed (v : x.Inv S U) (h : x.Aloft S U) : x.Unharmed := by
  intro w hw
  have hf := h w hw
  refine ⟨v.pools.obUse _ hf.live, ?_, hf.bytes⟩
  rw [hf.buf]
  exact v.pools.bufUse _ hf.live

/-- **A write keeps its buffer and its bytes** until it ends, in every run of safe steps. -/
theorem transmit_stable (obs : ObPtr → OutBuffer) (bufs : BufPtr → Buffer) (es : List Event)
    (h : Along SafeStep step (start obs bufs) es) :
    ∃ x : Tx, runs step (start obs bufs) es = some x ∧ x.Unharmed := by
  obtain ⟨x, hx, -⟩ := reached_inv obs bufs es
  obtain ⟨S, U, v, ha⟩ : ∃ S U, x.Inv S U ∧ x.Aloft S U := by
    refine runs_inv (fun x : Tx => ∃ S U, x.Inv S U ∧ x.Aloft S U) ?_ ?_ h hx
    · rintro _ _ _ ⟨_, _, v, ha⟩ hok he
      exact step_aloft v ha hok he
    · exact ⟨[], [], start_inv obs bufs, fun _ hw => by cases hw⟩
  exact ⟨x, hx, ha.unharmed v⟩

/-- The writer at its start. -/
def fresh : Tx := start (fun _ => default) fun _ => default

/-- An allocation of so many bytes. -/
def ask (length : Nat) : Event := .alloc .unbounded none length 0x23 0 fun _ => 0

/-- A packet more while a write is in flight from a buffer that has left the queue. -/
theorem transmit_stable_overlap :
    ∃ x : Tx, runs step fresh [ask 14, ask 4090, .write, ask 14] = some x ∧ x.Unharmed :=
  transmit_stable (fun _ => default) (fun _ => default) _ (by decide +kernel)

/-- **Ten small packets are too many**: the buffer of the write in flight goes back to the pool. -/
theorem early_reuse : ¬∀ es, Along CanWrite step fresh es → ∃ x : Tx, runs step fresh es = some x ∧ x.Unharmed := by
  intro h
  let es := [ask 14, ask 4090, .write] ++ List.replicate 10 (ask 14)
  obtain ⟨x, hx, hu⟩ := h es (by decide +kernel)
  have hd : (runs step fresh es).map (fun x => decide x.Unharmed) = some false := by decide +kernel
  rw [hx, Option.map_some, decide_eq_true hu] at hd
  cases hd

/-! ## Buffers that are lost -/

/-- Every `OutBuffer` in use that has left the queue holds a recent packet, and every `Buffer` in use is the buffer of
an `OutBuffer` in use. -/
def NoneLost (s : Writer) : Prop :=
  (∀ ob ∈ s.obUse, ob ∉ s.queue → s.outBuf ≠ some ob →
    1 ≤ (s.obs ob).packetCount ∧ ∃ op ∈ s.recents, op.outBuf = ob) ∧
  ∀ b ∈ s.bufUse, ∃ ob ∈ s.obUse, (s.obs ob).buf = b

instance (s : Writer) : Decidable (NoneLost s) := inferInstanceAs (Decidable (_ ∧ _))

/-- The pools have what an event asks for. -/
def Event.Succeeds : Event → Prop
  | .alloc al .. => al.Succeeds
  | .resend al _ => al.Succeeds
  | _ => True

/-- A buffer that leaves the queue still holds a recent packet. -/
def PopStep (x : Tx) : Event → Prop
  | .write => 1 < x.wr.bufCount → ∀ ob ∈ x.wr.queue.head?, 1 ≤ (x.wr.obs ob).packetCount
  | _ => True

instance (x : Tx) (e : Event) : Decidable (PopStep x e) :=
  match e with
  | .write => inferInstanceAs (Decidable (_ → ∀ ob ∈ x.wr.queue.head?, _))
  | .alloc .. => inferInstanceAs (Decidable True)
  | .complete => inferInstanceAs (Decidable True)
  | .resend .. => inferInstanceAs (Decidable True)

theorem step_tight (v : x.Inv S U) (h : x.wr.Tight (owners (S ++ U))) {e : Event} (hok : PopStep x e) (hal : e.Succeeds)
    (he : step x e = some x') : ∃ S' U', x'.Inv S' U' ∧ x'.wr.Tight (owners (S' ++ U')) := by
  cases e with
  | alloc al packId length type connId payload =>
    obtain ⟨x₁, S', U', hstep, hv, -, -, -, ht, -⟩ := step_alloc v al packId length type connId payload
    rw [he, Option.some.injEq] at hstep
    subst hstep
    exact ⟨S', U', hv, ht hal h⟩
  | write =>
    obtain ⟨x₁, S', U', hstep, hv, howners, -, huse, hq, -⟩ := step_write v
    rw [he, Option.some.injEq] at hstep
    subst hstep
    refine ⟨S', U', hv, ?_⟩
    rw [howners]
    apply h.congr huse.obUse huse.bufUse huse.buf
    intro c hc
    rcases hq with hq | ⟨hcount, ob, hq⟩
    · unfold Live at hc ⊢
      rwa [hq]
    · have hpos := hok hcount ob (by rw [hq]; rfl)
      rw [v.pools.count ob (.inl (by rw [hq]; exact List.mem_cons_self))] at hpos
      refine hc.elim (fun hc => ?_) .inr
      rw [hq] at hc
      rcases List.mem_cons.1 hc with rfl | hc
      · exact .inr (List.count_pos_iff.1 hpos)
      · exact .inl hc
  | complete =>
    cases he
    exact ⟨S, U, ⟨v.toValid, v.wire⟩, h⟩
  | resend al packId =>
    unfold step at he
    dsimp only at he
    rw [resendPacket_eq v.toValid] at he
    cases he
    exact ⟨S, U, ⟨v.toValid, v.wire⟩, h⟩

theorem noneLost (v : x.Inv S U) (h : x.wr.Tight (owners (S ++ U))) : NoneLost x.wr := by
  refine ⟨fun ob hob hq _ => ?_, h.paired⟩
  have hl := h.live ob hob
  have hm := hl.resolve_left hq
  constructor
  · rw [v.pools.count ob hl]
    exact List.count_pos_iff.2 hm
  · obtain ⟨y, hy, rfl⟩ := List.mem_map.1 hm
    exact ⟨y.1, by rw [v.recents]; exact List.mem_map_of_mem hy, rfl⟩

/-- **No buffer is lost**, if allocations succeed and no buffer leaves the queue without a recent packet. -/
theorem outBuffers_kept (obs : ObPtr → OutBuffer) (bufs : BufPtr → Buffer) (es : List Event)
    (hal : ∀ e ∈ es, e.Succeeds) (h : Along PopStep step (start obs bufs) es) :
    ∃ x : Tx, runs step (start obs bufs) es = some x ∧ NoneLost x.wr := by
  obtain ⟨x, hx, -⟩ := reached_inv obs bufs es
  obtain ⟨S, U, v, ht⟩ : ∃ S U, x.Inv S U ∧ x.wr.Tight (owners (S ++ U)) := by
    refine runs_inv (fun x : Tx => ∃ S U, x.Inv S U ∧ x.wr.Tight (owners (S ++ U))) ?_ ?_ (along_and h hal) hx
    · rintro _ _ _ ⟨_, _, v, ht⟩ hok he
      exact step_tight v ht hok.1 hok.2 he
    · exact ⟨[], [], start_inv obs bufs, .start obs bufs⟩
  exact ⟨x, hx, noneLost v ht⟩

theorem ask_succeeds (length : Nat) : (ask length).Succeeds := Alloc.unbounded_succeeds

/-- A buffer that leaves the queue as its last packet is sent. -/
theorem outBuffers_kept_pop :
    ∃ x : Tx, runs step fresh [ask 14, ask 4090, .write] = some x ∧ NoneLost x.wr := by
  refine outBuffers_kept (fun _ => default) (fun _ => default) _ (fun e he => ?_) (by decide +kernel)
  simp only [List.mem_cons, List.not_mem_nil, or_false] at he
  rcases he with rfl | rfl | rfl
  · exact ask_succeeds 14
  · exact ask_succeeds 4090
  · trivial

/-- **A buffer can be lost**: its packets are sent and dropped while it is still queued. -/
theorem lost_outBuffer : ¬∀ es : List Event, (∀ e ∈ es, e.Succeeds) →
    ∃ x : Tx, runs step fresh es = some x ∧ NoneLost x.wr := by
  intro h
  let es := [ask 14, .write, .complete, ask 4082] ++ List.replicate 10 (ask 14) ++ [.write]
  have hal : ∀ e ∈ es, e.Succeeds := by
    intro e he
    simp only [es, List.mem_append, List.mem_cons, List.mem_replicate, List.not_mem_nil, or_false] at he
    rcases he with ((rfl | rfl | rfl | rfl) | ⟨-, rfl⟩) | rfl
    · exact ask_succeeds 14
    · trivial
    · trivial
    · exact ask_succeeds 4082
    · exact ask_succeeds 14
    · trivial
  obtain ⟨x, hx, hn⟩ := h es hal
  have hd : (runs step fresh es).map (fun x => decide (NoneLost x.wr)) = some false := by decide +kernel
  rw [hx, Option.map_some, decide_eq_true hn] at hd
  cases hd

/-! ## Requests for packets -/

/-- A packet with this id is among the recent ones. -/
def Retained (s : Writer) (packId : UInt16) : Prop := ∃ op ∈ s.recents, (s.header op.pac).packId = packId

instance (s : Writer) (packId : UInt16) : Decidable (Retained s packId) :=
  inferInstanceAs (Decidable (∃ op ∈ s.recents, _))

/-- One packet more is listed. It is not sent yet, and it will look like `op`, with `PF_RESEND`. The buffer of `op` is
still in use. -/
def Copied (s s' : Writer) (op : OutPacket) : Prop :=
  ∃ kept copy, kept <:+ s.recents ∧ s'.recents = kept ++ [copy] ∧ copy.sent = false ∧ op.pac.1 ∈ s'.bufUse ∧
    Incoming.ofMem (s'.mem copy.pac) =
      { Incoming.ofMem (s.mem op.pac) with flags := (Incoming.ofMem (s.mem op.pac)).flags ||| resend }

/-- A request for a packet is honoured: the packet is copied if it is there, and nothing is sent if it is not. -/
def Honoured (s : Writer) (al : Alloc) (packId : UInt16) : Prop :=
  ∃ s', s.resendPacket al packId = some s' ∧
    (Retained s packId → ∃ op ∈ s.recents, (s.header op.pac).packId = packId ∧ Copied s s' op) ∧
    (¬Retained s packId → s'.recents = s.recents)

/-- The writer itself sets no flag but `PF_PAD_BYTE`. -/
theorem flags_listed {s : Writer} (v : s.Valid S U) {op : OutPacket} (hop : op ∈ s.recents) :
    (Incoming.ofMem (s.mem op.pac)).flags = 0 ∨ (Incoming.ofMem (s.mem op.pac)).flags = padByte := by
  rw [v.recents] at hop
  obtain ⟨y, hy, rfl⟩ := List.mem_map.1 hop
  have hs := v.shows y hy
  rw [hs.view, hs.pad]
  split
  · exact .inr rfl
  · exact .inl rfl

theorem not_honoured {s : Writer} (v : s.Valid S U) (al : Alloc) {packId : UInt16} (h : Retained s packId) :
    ¬Honoured s al packId := by
  rintro ⟨s', hs', hcopy, -⟩
  rw [resendPacket_eq v, Option.some.injEq] at hs'
  subst hs'
  obtain ⟨op, hop, -, kept, copy, -, hrec, -, -, hview⟩ := hcopy h
  have hmem : copy ∈ s.recents := by
    rw [hrec]
    exact List.mem_append_right _ (List.mem_singleton_self _)
  have hflags := congrArg Incoming.flags hview
  dsimp only at hflags
  rcases flags_listed v hmem with h₁ | h₁ <;> rcases flags_listed v hop with h₂ | h₂ <;> rw [h₁, h₂] at hflags <;>
    exact absurd hflags (by decide)

/-- **A request is honoured exactly when there is nothing to send**: no packet with the id is among the recent ones. -/
theorem resend_honoured_iff (obs : ObPtr → OutBuffer) (bufs : BufPtr → Buffer) (es : List Event) :
    ∃ x : Tx, runs step (start obs bufs) es = some x ∧
      ∀ al packId, Honoured x.wr al packId ↔ ¬Retained x.wr packId := by
  obtain ⟨x, hx, S, U, v⟩ := reached_inv obs bufs es
  refine ⟨x, hx, fun al packId => ⟨fun h hr => not_honoured v.toValid al hr h, fun hr => ?_⟩⟩
  exact ⟨x.wr, resendPacket_eq v.toValid al packId, fun h => absurd h hr, fun _ => rfl⟩

/-- **A packet that was just allocated is not found.** -/
theorem request_ignored : ∃ x : Tx, runs step fresh [ask 14] = some x ∧ Alloc.unbounded.Succeeds ∧
    Retained x.wr 1 ∧ ¬Honoured x.wr .unbounded 1 := by
  obtain ⟨x, hx, S, U, v⟩ := reached_inv (fun _ => default) (fun _ => default) [ask 14]
  have hx' : runs step fresh [ask 14] = some x := hx
  have hd : (runs step fresh [ask 14]).map (fun x => decide (Retained x.wr 1)) = some true := by decide +kernel
  rw [hx', Option.map_some, Option.some.injEq, decide_eq_true_eq] at hd
  exact ⟨x, hx', Alloc.unbounded_succeeds, hd, not_honoured v.toValid .unbounded hd⟩

end Tx

end AmiPiBorg
