import AmiPiBorg.Server.Moves
import AmiPiBorg.Writer.Stores

/-!
# Writes (`server/connection.c`)

`APB_PushToRemote` asks for a packet of `sizeof(struct Packet) + r_Length` bytes, which goes through a `UWORD`, and copies
`r_Length` bytes, which do not. Here it works on the packet writer, and `CopyMem` on its buffers. A sum that wraps is
too short for a packet, so what is copied always fits (`handleWrite_carried`).
-/

set_option autoImplicit false

namespace AmiPiBorg.Writes

open ProgLib Server Writer

/-- A call of `CopyMem` into a packet. -/
structure Copy where
  dest : Addr
  bytes : List UInt8

/-- What a write leaves: the packet writer, the request, and what was copied. -/
structure Outcome where
  wr : Writer
  req : Request
  copy : Option Copy

/-- What `APB_PushToRemote` does with the packet that it gets, if it gets one. The memory is that at `r_Data`. -/
def carry (c : Connection) (mem : Mem) (req : Request) : Writer × Option Addr → Outcome
  | (w, none) => { wr := w, req := { req with state := .failed }, copy := none }
  | (w, some p) =>
    let bytes := mem.slice 0 req.length.toNat
    { wr := w.fill p ptData c.id bytes, req := { req with state := .ok, actual := req.length },
      copy := some ⟨(p.1, p.2 + sizeofPacket), bytes⟩ }

/-- `APB_PushToRemote`. -/
def pushToRemote (al : Alloc) (w : Writer) (c : Connection) (mem : Mem) (req : Request) : Option Outcome :=
  (w.allocPacket al ((sizeofPacket + req.length.toNat) % 65536)).map (carry c mem req)

/-- The way of an `APB_RT_WRITE` through `APB_HandleClientRequest`, where the connection takes it. -/
def handleWrite (al : Alloc) (w : Writer) (c : Connection) (mem : Mem) (req : Request) : Option Outcome :=
  pushToRemote al w c mem (received c req)

/-- Nothing is copied, and the client is told that nothing was written. -/
structure Refused (o : Outcome) : Prop where
  state : o.req.state = .failed
  actual : o.req.actual = 0
  copy : o.copy = none

/-- Exactly `r_Length` bytes are copied to the data of a packet of that length, which lies in its buffer. -/
structure Carried (mem : Mem) (req : Request) (o : Outcome) : Prop where
  state : o.req.state = .ok
  actual : o.req.actual = req.length
  packet : ∃ op ∈ o.wr.recents, op.pac.2 + sizeofPacket + req.length.toNat ≤ bufferSize ∧
    (o.wr.header op.pac).length = req.length ∧
    o.copy = some ⟨(op.pac.1, op.pac.2 + sizeofPacket), mem.slice 0 req.length.toNat⟩ ∧
    (o.wr.bufs op.pac.1).data.slice (op.pac.2 + sizeofPacket) req.length.toNat = mem.slice 0 req.length.toNat

variable {al : Alloc} {w : Writer} {S U : List Listed} {length : Nat}

/-- Where the pools give what they are asked for, an allocation fails only for its length. -/
theorem allocates_of_succeeds (hal : al.Succeeds) (h14 : sizeofPacket ≤ length) (hle : length ≤ bufferSize) (w : Writer) :
    Allocates al w length := by
  have hnew : (w.newOutBuffer al).2.isSome = true := by
    obtain ⟨ob, hob⟩ := Option.isSome_iff_exists.1 (hal w).1
    obtain ⟨b, hb⟩ := Option.isSome_iff_exists.1 (hal { w with obUse := ob :: w.obUse }).2.1
    unfold newOutBuffer
    rw [hob]
    dsimp only
    rw [hb]
    rfl
  refine ⟨h14, hle, ?_, (hal _).2.2⟩
  unfold currentBuffer
  split
  · exact hnew
  · split
    · exact hnew
    · rfl

/-- The length that `APB_AllocPacket` is asked for is one of a packet only if nothing was cut off. -/
theorem wrapped_length (n : UInt16) (h : sizeofPacket ≤ (sizeofPacket + n.toNat) % 65536) :
    (sizeofPacket + n.toNat) % 65536 = sizeofPacket + n.toNat := by
  have hn := n.toNat_lt
  simp only [sizeofPacket] at h ⊢
  omega

/-- A packet that was allocated and filled in. -/
theorem carried_of_valid {p : Addr} {ob : ObPtr} {packId : UInt16} {c : Connection} {mem : Mem} {req : Request}
    (v : (w.fill p ptData c.id (mem.slice 0 req.length.toNat)).Valid S
      (U ++ [(⟨ob, p, false⟩, filled ptData c.id packId (mem.slice 0 req.length.toNat))])) :
    Carried mem req (carry c mem (received c req) (w, some p)) := by
  have hx : ((⟨ob, p, false⟩, filled ptData c.id packId (mem.slice 0 req.length.toNat)) : Listed) ∈
      U ++ [(⟨ob, p, false⟩, filled ptData c.id packId (mem.slice 0 req.length.toNat))] :=
    List.mem_append_right U (List.mem_singleton_self _)
  have hs := v.pending.shows _ hx
  have hlive : Live (w.fill p ptData c.id (mem.slice 0 req.length.toNat)) (owners (S ++ _)) ob :=
    .inr (mem_owners (List.mem_append_right S hx))
  have hfull := v.pools.full ob hlive
  obtain ⟨-, hin⟩ := v.pending.inside _ hx
  have hlen : (filled ptData c.id packId (mem.slice 0 req.length.toNat)).data.length = req.length.toNat :=
    Mem.length_slice ..
  have hm : (⟨ob, p, false⟩ : OutPacket) ∈ (w.fill p ptData c.id (mem.slice 0 req.length.toNat)).recents := by
    rw [v.recents]
    exact List.mem_map.2 ⟨_, List.mem_append_right S hx, rfl⟩
  refine ⟨rfl, rfl, ⟨ob, p, false⟩, hm, ?_, ?_, rfl, ?_⟩
  · dsimp only at hin ⊢
    have hsize : sizeofPacket + req.length.toNat ≤
        (filled ptData c.id packId (mem.slice 0 req.length.toNat)).size := by
      unfold Incoming.size
      rw [hlen]
      exact Nat.le_add_right ..
    omega
  · exact UInt16.toNat_inj.1 (hs.length.trans hlen)
  · have hstore := Mem.slice_store
      (((w.storeAt (p.1, p.2 + 4) [ptData]).storeAt (p.1, p.2 + 6) (be16 c.id)).bufs p.1).data
      (p.2 + sizeofPacket) (mem.slice 0 req.length.toNat)
    rw [Mem.length_slice] at hstore
    simpa [carry, received, fill, storeAt] using hstore

/-- A write is one of the allocations that a transmitter makes. -/
theorem handleWrite_step {x : Tx} (v : x.wr.Valid S U) (al : Alloc) (c : Connection) (mem : Mem) (req : Request) :
    (handleWrite al x.wr c mem req).map Outcome.wr =
      (Tx.step x (.alloc al none ((sizeofPacket + req.length.toNat) % 65536) ptData c.id mem)).map Tx.wr := by
  have v' := Tx.valid_asked none v
  obtain ⟨w, r, hr, -, hcases⟩ := alloc_valid al v' ((sizeofPacket + req.length.toNat) % 65536) (Tx.asked x.wr none).2
  have hr : x.wr.allocPacket al ((sizeofPacket + req.length.toNat) % 65536) = some (w, r) := hr
  rw [handleWrite, pushToRemote, Tx.step, Tx.allocate, received, hr]
  rcases hcases with ⟨rfl, -⟩ | ⟨ob, p, k, rfl, ⟨h14, -⟩, -⟩
  · rfl
  · have hlen := wrapped_length req.length h14
    have hn : (sizeofPacket + req.length.toNat) % 65536 - sizeofPacket = req.length.toNat := by omega
    simp [carry, Tx.place, hn]

/-- **A write is carried whole or refused.** In every state of the packet writer and for every `r_Length`, a write is
handled to the end. It is refused, or exactly its bytes are in a packet of that length. Where the pools give what they are
asked for, it is carried if and only if its packet fits into a buffer. -/
theorem handleWrite_carried (obs : ObPtr → OutBuffer) (bufs : BufPtr → Buffer) (es : List Tx.Event) (al : Alloc)
    (c : Connection) (mem : Mem) (req : Request) :
    ∃ x, runs Tx.step (Tx.start obs bufs) es = some x ∧ ∃ o, handleWrite al x.wr c mem req = some o ∧
      (Refused o ∨ Carried mem req o) ∧
      (al.Succeeds → (Carried mem req o ↔ req.length.toNat ≤ bufferSize - sizeofPacket)) := by
  obtain ⟨x, hx, S, U, v⟩ := Tx.reached_inv obs bufs es
  refine ⟨x, hx, ?_⟩
  have v' := Tx.valid_asked none v.toValid
  obtain ⟨w, r, hr, -, hcases⟩ := alloc_valid al v' ((sizeofPacket + req.length.toNat) % 65536) (Tx.asked x.wr none).2
  have hw : handleWrite al x.wr c mem req = some (carry c mem (received c req) (w, r)) :=
    congrArg (Option.map (carry c mem (received c req))) hr
  refine ⟨_, hw, ?_⟩
  rcases hcases with ⟨rfl, -⟩ | ⟨ob, p, k, rfl, ⟨h14, hle, -⟩, -, -, hfill⟩
  · refine ⟨.inl ⟨rfl, rfl, rfl⟩, fun hal => iff_of_false (fun hc => by cases hc.state) fun hn => ?_⟩
    -- the pools would have had a packet
    have hlen : (sizeofPacket + req.length.toNat) % 65536 = sizeofPacket + req.length.toNat := by
      simp only [bufferSize, sizeofPacket] at hn ⊢
      omega
    have ha : Allocates al (Tx.asked x.wr none).1 ((sizeofPacket + req.length.toNat) % 65536) := by
      apply allocates_of_succeeds hal
      · omega
      · rw [hlen]
        simp only [bufferSize, sizeofPacket] at hn ⊢
        omega
    obtain ⟨_, _, s', -, hs, -⟩ := alloc_some v' ha (Tx.asked x.wr none).2
    cases hs.symm.trans hr
  · have hlen := wrapped_length req.length h14
    rw [hlen] at hle hfill
    obtain ⟨vf, -⟩ := hfill ptData c.id (mem.slice 0 req.length.toNat) (by rw [Mem.length_slice]; omega)
    have hc := carried_of_valid vf
    refine ⟨.inr hc, fun _ => iff_of_true hc ?_⟩
    omega

/-- A connection that takes writes. -/
def openConnection : Connection :=
  { num := 0, id := 1, handlerId := 1, state := csConnected, packetQueue := [], reqQueue := [] }

/-- A write of so many bytes. -/
def writeOf (length : UInt16) : Request := { ask rtWrite 1 with length := length }

/-- Behind two packets 3 bytes are written, and 4083 bytes are one too many. -/
theorem handleWrite_carried_three : ∃ x, runs Tx.step Tx.fresh [Tx.ask 14, Tx.ask 4000] = some x ∧
    (∃ o, handleWrite .unbounded x.wr openConnection (fun i => UInt8.ofNat i) (writeOf 3) = some o ∧
      Carried (fun i => UInt8.ofNat i) (writeOf 3) o) ∧
    ∃ o, handleWrite .unbounded x.wr openConnection (fun i => UInt8.ofNat i) (writeOf 4083) = some o ∧ Refused o := by
  have hwrite := handleWrite_carried (fun _ => default) (fun _ => default) [Tx.ask 14, Tx.ask 4000] .unbounded
    openConnection fun i => UInt8.ofNat i
  obtain ⟨x, hx, o, ho, -, hc⟩ := hwrite (writeOf 3)
  obtain ⟨y, hy, o', ho', hor, hc'⟩ := hwrite (writeOf 4083)
  cases hx.symm.trans hy
  refine ⟨x, hx, ⟨o, ho, (hc Alloc.unbounded_succeeds).2 (by decide)⟩, o', ho', hor.resolve_right fun hcar => ?_⟩
  exact absurd ((hc' Alloc.unbounded_succeeds).1 hcar) (by decide)

end AmiPiBorg.Writes
