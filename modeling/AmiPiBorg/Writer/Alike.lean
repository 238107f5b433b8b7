import AmiPiBorg.Writer.Stores

/-!
# Writers with different contents

Nothing that the writer does depends on what its buffers hold, apart from the bytes that it sends: two writers that
differ in the contents of their buffers (`Alike`) hand out the same packets, keep the same lists and take the same
objects, as long as the pools do not look into the buffers either (`Alloc.Blind`). `step_alike` is that for one event.
-/

set_option autoImplicit false

namespace AmiPiBorg

open ProgLib

namespace Writer

/-- The writer with other buffers behind the same pointers. -/
def withBufs (s : Writer) (bufs : BufPtr → Buffer) : Writer := { s with bufs := bufs }

/-- What the pools answer does not depend on what the buffers hold. -/
def Alloc.Blind (al : Alloc) : Prop := ∀ (s : Writer) (bufs : BufPtr → Buffer),
  al.outBuffer (s.withBufs bufs) = al.outBuffer s ∧ al.buffer (s.withBufs bufs) = al.buffer s ∧
    al.outPacket (s.withBufs bufs) = al.outPacket s

theorem Alloc.unbounded_blind : Alloc.unbounded.Blind := fun _ _ => ⟨rfl, rfl, rfl⟩

/-- The writers differ at most in what their buffers hold, and in buffers that they do not use. -/
structure Alike (s t : Writer) : Prop where
  eq : t = s.withBufs t.bufs
  filled : ∀ b ∈ s.bufUse, (t.bufs b).offset = (s.bufs b).offset

variable {s s' t t' : Writer} {al : Alloc} {ob : ObPtr} {length : Nat} {packId : UInt16} {S U : List Listed}
  {ops ops' : List OutPacket} {r r' : Option Write} {bufs : BufPtr → Buffer} {op : OutPacket}

namespace Alike

theorem exists_bufs (h : Alike s t) : ∃ bufs, t = s.withBufs bufs ∧ ∀ b ∈ s.bufUse, (bufs b).offset = (s.bufs b).offset :=
  ⟨t.bufs, h.eq, h.filled⟩

end Alike

/-- The current buffer is in use. -/
theorem Valid.outBuf_bufUse (v : s.Valid S U) (h : s.outBuf = some ob) : (s.obs ob).buf ∈ s.bufUse :=
  v.pools.bufUse ob (.inl (List.mem_of_getLast? (v.pools.outBuf.symm.trans h)))

/-! ## Allocations -/

theorem Alike.newOutBuffer (h : Alike s t) (hal : al.Blind) :
    Alike (s.newOutBuffer al).1 (t.newOutBuffer al).1 ∧ (t.newOutBuffer al).2 = (s.newOutBuffer al).2 := by
  obtain ⟨bufs, rfl, hfill⟩ := h.exists_bufs
  unfold Writer.newOutBuffer
  rw [(hal s bufs).1]
  cases al.outBuffer s with
  | none => exact ⟨h, rfl⟩
  | some ob =>
    have hb : al.buffer { s.withBufs bufs with obUse := ob :: (s.withBufs bufs).obUse } =
        al.buffer { s with obUse := ob :: s.obUse } := (hal { s with obUse := ob :: s.obUse } bufs).2.1
    dsimp only
    rw [hb]
    cases al.buffer { s with obUse := ob :: s.obUse } with
    | none => exact ⟨⟨rfl, hfill⟩, rfl⟩
    | some b =>
      refine ⟨⟨rfl, fun c hc => ?_⟩, rfl⟩
      show (Function.update bufs b _ c).offset = (Function.update s.bufs b _ c).offset
      by_cases hcb : c = b
      · rw [hcb, Function.update_self, Function.update_self]
      · rw [Function.update_of_ne hcb, Function.update_of_ne hcb]
        exact hfill c ((List.mem_cons.1 hc).resolve_left hcb)

theorem Alike.currentBuffer (h : Alike s t) (hal : al.Blind) (v : s.Valid S U) :
    Alike (s.currentBuffer al length).1 (t.currentBuffer al length).1 ∧
      (t.currentBuffer al length).2 = (s.currentBuffer al length).2 := by
  have hnew := h.newOutBuffer hal
  obtain ⟨bufs, rfl, hfill⟩ := h.exists_bufs
  unfold Writer.currentBuffer
  rw [show (s.withBufs bufs).outBuf = s.outBuf from rfl]
  cases hob : s.outBuf with
  | none => exact hnew
  | some ob =>
    dsimp only
    rw [show ((s.withBufs bufs).bufs ((s.withBufs bufs).obs ob).buf).offset = (s.bufs (s.obs ob).buf).offset from
      hfill _ (v.outBuf_bufUse hob)]
    split
    · exact hnew
    · exact ⟨h, rfl⟩

theorem Alike.addPacket (h : Alike s t) (hb : (s.obs ob).buf ∈ s.bufUse) (h14 : sizeofPacket ≤ length)
    (hle : length ≤ bufferSize) : Alike (s.addPacket ob length packId).1 (t.addPacket ob length packId).1 ∧
      (t.addPacket ob length packId).2 = (s.addPacket ob length packId).2 := by
  obtain ⟨bufs, rfl, hfill⟩ := h.exists_bufs
  obtain ⟨d, a, hadd, -, -, -, -, hdata⟩ := addPacket_spec s ob packId h14 hle
  obtain ⟨d', a', hadd', -, -, -, -, hdata'⟩ := addPacket_spec (s.withBufs bufs) ob packId h14 hle
  have hoff : ((s.withBufs bufs).bufs ((s.withBufs bufs).obs ob).buf).offset = (s.bufs (s.obs ob).buf).offset := hfill _ hb
  have hsize : a'.size = a.size := by unfold Incoming.size; rw [hdata, hdata']
  rw [hadd, hadd', hoff, hsize]
  refine ⟨⟨rfl, fun c hc => ?_⟩, rfl⟩
  show (Function.update bufs (s.obs ob).buf _ c).offset = (Function.update s.bufs (s.obs ob).buf _ c).offset
  by_cases hcb : c = (s.obs ob).buf
  · rw [hcb, Function.update_self, Function.update_self]
  · rw [Function.update_of_ne hcb, Function.update_of_ne hcb]
    exact hfill c hc

theorem releaseOutPacket_withBufs (s : Writer) (op : OutPacket) (bufs : BufPtr → Buffer) :
    (s.withBufs bufs).releaseOutPacket op = (s.releaseOutPacket op).withBufs bufs := by
  let s' := s.setOb op.outBuf { s.obs op.outBuf with packetCount := ((s.obs op.outBuf).packetCount + 65535) % 65536 }
  exact (apply_ite (fun w : Writer => w.withBufs bufs)
    ((s'.obs op.outBuf).packetCount = 0 ∧ (s'.obs op.outBuf).canRelease = true) (s'.releaseOutBuffer op.outBuf) s').symm

theorem releaseOutPacket_bufUse (s : Writer) (op : OutPacket) : ∀ b ∈ (s.releaseOutPacket op).bufUse, b ∈ s.bufUse := by
  unfold releaseOutPacket
  dsimp only
  split
  · exact fun b hb => List.mem_of_mem_erase hb
  · exact fun b hb => hb

theorem Alike.trim (h : Alike s t) (hs : Writer.trim ops s = some s') : ∃ t', Writer.trim ops t = some t' ∧ Alike s' t' := by
  induction ops generalizing s t with
  | nil =>
    obtain ⟨bufs, rfl, hfill⟩ := h.exists_bufs
    unfold Writer.trim at hs ⊢
    by_cases hle : s.recentCount ≤ recentPacketsToKeep
    · rw [if_pos hle] at hs
      cases hs
      exact ⟨_, if_pos hle, rfl, hfill⟩
    · rw [if_neg hle] at hs
      cases hs
  | cons op ops ih =>
    obtain ⟨bufs, rfl, hfill⟩ := h.exists_bufs
    unfold Writer.trim at hs ⊢
    by_cases hle : s.recentCount ≤ recentPacketsToKeep
    · rw [if_pos hle] at hs
      cases hs
      exact ⟨_, if_pos hle, rfl, hfill⟩
    · rw [if_neg hle] at hs
      rw [if_neg (show ¬(s.withBufs bufs).recentCount ≤ recentPacketsToKeep from hle)]
      dsimp only at hs ⊢
      split
      case isTrue hsent =>
        rw [if_pos hsent] at hs
        refine ih ?_ hs
        rw [releaseOutPacket_withBufs]
        refine ⟨rfl, fun b hb => ?_⟩
        show (bufs b).offset = ((s.releaseOutPacket op).bufs b).offset
        rw [releaseOutPacket_bufs]
        exact hfill b (releaseOutPacket_bufUse s op b hb)
      case isFalse hsent =>
        rw [if_neg hsent] at hs
        cases hs
        exact ⟨_, rfl, rfl, hfill⟩

/-- **An allocation** gives the same pointer. -/
theorem Alike.alloc {p : Option Addr} (h : Alike s t) (hal : al.Blind) (v : s.Valid S U)
    (hs : allocPacketWithId al s length packId = some (s', p)) :
    ∃ t', allocPacketWithId al t length packId = some (t', p) ∧ Alike s' t' := by
  unfold allocPacketWithId at hs ⊢
  by_cases hbig : bufferSize < length
  · rw [if_pos hbig] at hs ⊢
    cases hs
    exact ⟨t, rfl, h⟩
  rw [if_neg hbig] at hs ⊢
  by_cases hsmall : length < sizeofPacket
  · rw [if_pos hsmall] at hs ⊢
    cases hs
    exact ⟨t, rfl, h⟩
  rw [if_neg hsmall] at hs ⊢
  have hle := Nat.not_lt.1 hbig
  obtain ⟨g₁, -, hsame, -, hroom⟩ := currentBuffer_good al v.toGood hle
  obtain ⟨h₁, hob⟩ : Alike (s.currentBuffer al length).1 (t.currentBuffer al length).1 ∧
      (t.currentBuffer al length).2 = (s.currentBuffer al length).2 := h.currentBuffer hal v
  rcases hcur : s.currentBuffer al length with ⟨s₁, o⟩
  rcases hcur' : t.currentBuffer al length with ⟨t₁, o'⟩
  rw [hcur, hcur'] at h₁ hob
  rw [hcur] at g₁ hsame hroom hs
  dsimp only at h₁ hob hs ⊢
  subst hob
  cases o' with
  | none =>
    cases hs
    exact ⟨t₁, rfl, h₁⟩
  | some ob =>
    have v₁ : s₁.Valid S U := ⟨g₁, hsame.recents.trans v.recents, hsame.recentCount.trans v.recentCount⟩
    have hp : al.outPacket t₁ = al.outPacket s₁ := by
      rw [h₁.eq]
      exact (hal s₁ t₁.bufs).2.2
    dsimp only at hs ⊢
    rw [hp]
    split
    case isTrue hpac =>
      rw [if_pos hpac] at hs
      obtain ⟨s₂, htrim, he⟩ := Option.map_eq_some_iff.1 hs
      cases he
      obtain ⟨h₂, hop⟩ : Alike (s₁.addPacket ob length packId).1 (t₁.addPacket ob length packId).1 ∧
          (t₁.addPacket ob length packId).2 = (s₁.addPacket ob length packId).2 :=
        h₁.addPacket (v₁.outBuf_bufUse (hroom ob rfl).1) (Nat.not_lt.1 hsmall) hle
      obtain ⟨t₂, htrim', h₃⟩ := h₂.trim htrim
      have hrec : (t₁.addPacket ob length packId).1.recents = (s₁.addPacket ob length packId).1.recents := by
        rw [h₂.eq]
        rfl
      refine ⟨{ t₂ with recents := t₂.recents ++ [(s₁.addPacket ob length packId).2],
                        recentCount := (t₂.recentCount + 1) % 65536 }, ?_, ?_, h₃.filled⟩
      · rw [hrec, htrim', Option.map_some, hop]
      · rw [h₃.eq]
        rfl
    case isFalse hpac =>
      rw [if_neg hpac] at hs
      cases hs
      exact ⟨t₁, rfl, h₁⟩

theorem fill_withBufs (s : Writer) (p : Addr) (type : UInt8) (connId : UInt16) (payload : List UInt8) :
    s.fill p type connId payload = s.withBufs (s.fill p type connId payload).bufs := rfl

theorem Alike.fill (h : Alike s t) (p : Addr) (type : UInt8) (connId : UInt16) (payload : List UInt8) :
    Alike (s.fill p type connId payload) (t.fill p type connId payload) := by
  refine ⟨?_, fun b hb => ?_⟩
  · rw [fill_withBufs t, fill_withBufs s, h.eq]
    rfl
  · rw [(sameRoom_fill t p type connId payload).filled, (sameRoom_fill s p type connId payload).filled]
    exact h.filled b hb

/-! ## Writes -/

/-- The loop marks the packets of the buffer, whatever they hold. -/
theorem sendPackets_eq {u : Writer × List OutPacket} (h : sendPackets ob s ops = some u) :
    u.1 = s.withBufs u.1.bufs ∧
      u.2 = ops.map fun op => if op.outBuf = ob ∧ op.sent = false then { op with sent := true } else op := by
  induction ops generalizing s u with
  | nil =>
    cases h
    exact ⟨rfl, rfl⟩
  | cons op ops ih =>
    unfold sendPackets at h
    split at h
    case isTrue hop =>
      obtain ⟨c, -, h⟩ := Option.bind_eq_some_iff.1 h
      obtain ⟨w, hw, rfl⟩ := Option.map_eq_some_iff.1 h
      obtain ⟨heq, hops⟩ := ih hw
      refine ⟨heq, ?_⟩
      rw [List.map_cons, if_pos hop, ← hops]
    case isFalse hop =>
      obtain ⟨w, hw, rfl⟩ := Option.map_eq_some_iff.1 h
      obtain ⟨heq, hops⟩ := ih hw
      refine ⟨heq, ?_⟩
      rw [List.map_cons, if_neg hop, ← hops]

theorem popBuffer_withBufs (s : Writer) (ob : ObPtr) (bufs : BufPtr → Buffer) :
    (s.withBufs bufs).popBuffer ob = (s.popBuffer ob).withBufs bufs :=
  (apply_ite (fun w : Writer => w.withBufs bufs) (1 < s.bufCount)
    { s.setOb ob { s.obs ob with canRelease := true } with
      queue := s.queue.tail, bufCount := (s.bufCount + 65535) % 65536 } s).symm

theorem popBuffer_bufUse (s : Writer) (ob : ObPtr) : (s.popBuffer ob).bufUse = s.bufUse := by
  unfold popBuffer
  split <;> rfl

/-- The unsent bytes are those from the same place on, and the same packets are marked. -/
theorem sendBuffer_alike {t₁ s₁ : Writer} (hin : (bufs (s.obs ob).buf).offset = (s.bufs (s.obs ob).buf).offset)
    (hs : s.sendBuffer ob = some (s₁, r)) (ht : (s.withBufs bufs).sendBuffer ob = some (t₁, r')) :
    t₁ = s₁.withBufs t₁.bufs ∧ s₁.bufUse = s.bufUse := by
  unfold sendBuffer at hs ht
  dsimp only at hs ht
  rw [show ((s.withBufs bufs).bufs ((s.withBufs bufs).obs ob).buf).offset = (s.bufs (s.obs ob).buf).offset from hin] at ht
  by_cases hlt : (s.obs ob).offset < (s.bufs (s.obs ob).buf).offset
  · rw [if_pos hlt] at hs
    rw [if_pos (show ((s.withBufs bufs).obs ob).offset < _ from hlt)] at ht
    obtain ⟨⟨w, l⟩, hu, he⟩ := Option.map_eq_some_iff.1 hs
    cases he
    obtain ⟨⟨w', l'⟩, hu', he⟩ := Option.map_eq_some_iff.1 ht
    cases he
    obtain ⟨heq, hops⟩ := sendPackets_eq hu
    obtain ⟨heq', hops'⟩ := sendPackets_eq hu'
    -- both have filled the buffer so far
    have hroom : (w'.bufs (s.obs ob).buf).offset = (w.bufs (s.obs ob).buf).offset := by
      rw [(sameRoom_sendPackets hu').filled, (sameRoom_sendPackets hu).filled]
      exact hin
    obtain ⟨B, rfl⟩ : ∃ B, w = s.withBufs B := ⟨_, heq⟩
    obtain ⟨B', rfl⟩ : ∃ B, w' = s.withBufs B := ⟨_, heq'⟩
    obtain rfl : l' = l := hops'.trans hops.symm
    have hoff : (B' (s.obs ob).buf).offset = (B (s.obs ob).buf).offset := hroom
    refine ⟨?_, rfl⟩
    show Writer.setOb { s.withBufs B' with recents := l' } ob { s.obs ob with offset := (B' (s.obs ob).buf).offset } =
      Writer.withBufs (Writer.setOb { s.withBufs B with recents := l' } ob
        { s.obs ob with offset := (B (s.obs ob).buf).offset }) B'
    rw [hoff]
    rfl
  · rw [if_neg hlt] at hs
    rw [if_neg (show ¬((s.withBufs bufs).obs ob).offset < _ from hlt)] at ht
    cases hs
    cases ht
    exact ⟨rfl, rfl⟩

/-- `APB_WriteBuffer` takes the same buffer off the queue, or none. -/
theorem Alike.write (h : Alike s t) (v : s.Valid S U) (hs : s.writeBuffer = some (s', r))
    (ht : t.writeBuffer = some (t', r')) : Alike s' t' := by
  have hfill : ∀ b ∈ s.bufUse, (t'.bufs b).offset = (s'.bufs b).offset := fun b hb => by
    rw [(sameRoom_writeBuffer ht).filled, (sameRoom_writeBuffer hs).filled]
    exact h.filled b hb
  obtain ⟨bufs, rfl, hin⟩ := h.exists_bufs
  unfold writeBuffer at hs ht
  rw [show (s.withBufs bufs).queue = s.queue from rfl] at ht
  cases hq : s.queue with
  | nil =>
    rw [hq] at hs ht
    cases hs
    cases ht
    exact h
  | cons ob q =>
    rw [hq] at hs ht
    obtain ⟨⟨s₁, w₁⟩, hs₁, he⟩ := Option.map_eq_some_iff.1 hs
    cases he
    obtain ⟨⟨t₁, w₂⟩, ht₁, he⟩ := Option.map_eq_some_iff.1 ht
    cases he
    have hob : (s.obs ob).buf ∈ s.bufUse := v.pools.bufUse ob (.inl (by rw [hq]; exact List.mem_cons_self))
    obtain ⟨heq, huse⟩ := sendBuffer_alike (hin _ hob) hs₁ ht₁
    refine ⟨?_, fun b hb => hfill b ?_⟩
    · rw [heq, popBuffer_withBufs]
      rfl
    · rw [← huse, ← popBuffer_bufUse s₁ ob]
      exact hb

end Writer

namespace Tx

open Writer

variable {x x' y y' : Tx} {S U S' U' : List Listed} {e : Event}

/-- The pools that an event asks do not look into the buffers. -/
def Event.Blind : Event → Prop
  | .alloc al .. => al.Blind
  | .resend al _ => al.Blind
  | _ => True

/-- The writers are alike, and have handed out the same packets. -/
structure Alike (x y : Tx) : Prop where
  wr : Writer.Alike x.wr y.wr
  allocated : y.allocated = x.allocated

theorem alike_asked (h : Writer.Alike x.wr y.wr) (packId : Option UInt16) :
    Writer.Alike (asked x.wr packId).1 (asked y.wr packId).1 ∧ (asked y.wr packId).2 = (asked x.wr packId).2 := by
  obtain ⟨bufs, hy, hfill⟩ := h.exists_bufs
  rw [hy]
  cases packId with
  | none => exact ⟨⟨rfl, hfill⟩, rfl⟩
  | some packId => exact ⟨⟨rfl, hfill⟩, rfl⟩

/-- **The same event** keeps writers alike. -/
theorem step_alike (h : Alike x y) (v : x.Inv S U) (v' : y.Inv S' U') (he : e.Blind) (hx : step x e = some x')
    (hy : step y e = some y') : Alike x' y' := by
  cases e with
  | alloc al packId length type connId payload =>
    obtain ⟨⟨w, p⟩, hw, rfl⟩ := Option.map_eq_some_iff.1 hx
    obtain ⟨⟨w', p'⟩, hw', rfl⟩ := Option.map_eq_some_iff.1 hy
    obtain ⟨hasked, hid⟩ := alike_asked h.wr packId
    rw [allocate_eq] at hw hw'
    rw [hid] at hw'
    obtain ⟨t, ht, hal⟩ := hasked.alloc he (valid_asked packId v.toValid) hw
    cases ht.symm.trans hw'
    rw [hid]
    cases p with
    | none => exact ⟨hal, h.allocated⟩
    | some p => exact ⟨hal.fill _ _ _ _, congrArg (· ++ _) h.allocated⟩
  | write =>
    obtain ⟨⟨w, r⟩, hw, rfl⟩ := Option.map_eq_some_iff.1 hx
    obtain ⟨⟨w', r'⟩, hw', rfl⟩ := Option.map_eq_some_iff.1 hy
    exact ⟨h.wr.write v.toValid hw hw', h.allocated⟩
  | complete =>
    cases hx
    cases hy
    exact ⟨h.wr, h.allocated⟩
  | resend al packId =>
    unfold step at hx hy
    dsimp only at hx hy
    rw [resendPacket_eq v.toValid] at hx
    rw [resendPacket_eq v'.toValid] at hy
    cases hx
    cases hy
    exact ⟨h.wr, h.allocated⟩

end Tx

end AmiPiBorg
