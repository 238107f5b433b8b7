import AmiPiBorg.Writer.Recents

/-!
# Where the writer stores

What `APB_AllocPacketWithId` stores, and the room that it gives to its caller, are inside the buffer and behind the
packets that are there already, except for one length (`stores_inside`, `store_behind_buffer`). `alloc_some` and
`alloc_none` say when a call succeeds and what it leaves behind; `SameRoom` is what other operations leave alone.
-/

set_option autoImplicit false

namespace AmiPiBorg

open ProgLib

namespace Writer

variable {s s' : Writer} {al : Alloc} {ob : ObPtr} {length : Nat} {packId : UInt16} {S U : List Listed}
  {ops ops' : List OutPacket} {r : Option Addr}

/-! ## Stores -/

/-- The stores of lines 189 to 205, with the places in `b_Data`, for a packet at `off`. -/
def packetStores (off length : Nat) (packId : UInt16) : List (Nat × List UInt8) :=
  [(off, be32 packetId), (off + 8, be16 packId), (off + 5, [0]),
    (off + 12, be16 (UInt16.ofNat (length - sizeofPacket))), (off + 10, be16 0)] ++
  if length % 2 = 1 then [(off + 5, [padByte]), (off + length + 1, [0])] else []

/-- These are the stores of `APB_AllocPacketWithId`, and there are no others. -/
theorem bufs_addPacket (s : Writer) (ob : ObPtr) (length : Nat) (packId : UInt16) (b : BufPtr) :
    ((s.addPacket ob length packId).1.bufs b).data = if b = (s.obs ob).buf then
      (packetStores (s.bufs b).offset length packId).foldl (fun m w => m.store w.1 w.2) (s.bufs b).data
    else (s.bufs b).data := by
  unfold addPacket packetStores
  by_cases hb : b = (s.obs ob).buf
  · subst hb
    by_cases hodd : length % 2 = 1
    · simp [hodd, storeAt, setBuf, setOb]
    · simp [hodd, storeAt, setBuf, setOb]
  · by_cases hodd : length % 2 = 1
    · simp [hodd, hb, storeAt, setBuf, setOb]
    · simp [hodd, hb, storeAt, setBuf, setOb]

/-- The ranges of `b_Data` that a packet at `off` is stored to, and the room for its payload. -/
def touched (off length : Nat) (packId : UInt16) : List (Nat × Nat) :=
  (packetStores off length packId).map (fun w => (w.1, w.1 + w.2.length)) ++ [(off + sizeofPacket, off + length)]

/-- Everything lies behind `off`, and the last of it is the byte after the pad byte. -/
theorem touched_bounds (off : Nat) (packId : UInt16) (h14 : sizeofPacket ≤ length) : ∀ a ∈ touched off length packId, off ≤ a.1 ∧
    a.2 ≤ off + length + if length % 2 = 1 then 2 else 0 := by
  intro a ha
  simp only [sizeofPacket] at h14
  simp only [touched, packetStores, sizeofPacket] at ha
  by_cases hodd : length % 2 = 1
  · simp [hodd, length_be16, length_be32] at ha
    rcases ha with rfl | rfl | rfl | rfl | rfl | rfl | rfl | rfl <;> simp [hodd] <;> omega
  · simp [hodd, length_be16, length_be32] at ha
    rcases ha with rfl | rfl | rfl | rfl | rfl | rfl <;> simp [hodd] <;> omega

/-! ## What the parts of an allocation leave alone -/

/-- Neither the current buffer nor the next packet id changes, and the buffers stay as far filled as they are. -/
structure SameRoom (s s' : Writer) : Prop where
  outBuf : s'.outBuf = s.outBuf
  nextPackId : s'.nextPackId = s.nextPackId
  buf : ∀ c, (s'.obs c).buf = (s.obs c).buf
  filled : ∀ b, (s'.bufs b).offset = (s.bufs b).offset

theorem SameRoom.refl (s : Writer) : SameRoom s s := ⟨rfl, rfl, fun _ => rfl, fun _ => rfl⟩

theorem SameRoom.trans {t : Writer} (h : SameRoom s s') (h' : SameRoom s' t) : SameRoom s t :=
  ⟨h'.outBuf.trans h.outBuf, h'.nextPackId.trans h.nextPackId, fun c => (h'.buf c).trans (h.buf c),
    fun b => (h'.filled b).trans (h.filled b)⟩

theorem sameRoom_storeAt (s : Writer) (p : Addr) (bs : List UInt8) : SameRoom s (s.storeAt p bs) := by
  refine ⟨rfl, rfl, fun _ => rfl, fun b => ?_⟩
  unfold storeAt
  rw [bufs_setBuf]
  split
  · subst b
    rfl
  · rfl

theorem sameRoom_setOb (s : Writer) (ob : ObPtr) {v : OutBuffer} (hv : v.buf = (s.obs ob).buf) :
    SameRoom s (s.setOb ob v) := by
  refine ⟨rfl, rfl, fun c => ?_, fun _ => rfl⟩
  rw [obs_setOb]
  split
  · subst c
    exact hv
  · rfl

theorem sameRoom_release (s : Writer) (op : OutPacket) : SameRoom s (s.releaseOutPacket op) := by
  have h := sameRoom_setOb s op.outBuf
    (v := { s.obs op.outBuf with packetCount := ((s.obs op.outBuf).packetCount + 65535) % 65536 }) rfl
  unfold releaseOutPacket
  dsimp only
  split
  · exact ⟨h.outBuf, h.nextPackId, h.buf, h.filled⟩
  · exact h

theorem sameRoom_trim (h : trim ops s = some s') : SameRoom s s' := by
  have hstop : ∀ l : List OutPacket, SameRoom s { s with recents := l } :=
    fun l => ⟨rfl, rfl, fun _ => rfl, fun _ => rfl⟩
  induction ops generalizing s with
  | nil =>
    simp only [trim] at h
    split at h
    · cases h
      exact hstop []
    · cases h
  | cons op ops ih =>
    simp only [trim] at h
    split at h
    · cases h
      exact hstop _
    · split at h
      · have hr := sameRoom_release s op
        have hdrop : SameRoom s { s.releaseOutPacket op with recentCount := (s.recentCount + 65535) % 65536 } :=
          ⟨hr.outBuf, hr.nextPackId, hr.buf, hr.filled⟩
        exact hdrop.trans (ih h fun l => ⟨rfl, rfl, fun _ => rfl, fun _ => rfl⟩)
      · cases h
        exact hstop _

theorem sameRoom_sendPackets {t : Writer × List OutPacket} (h : sendPackets ob s ops = some t) : SameRoom s t.1 := by
  induction ops generalizing s t with
  | nil =>
    cases h
    exact .refl s
  | cons op ops ih =>
    simp only [sendPackets] at h
    split at h
    · obtain ⟨c, -, h⟩ := Option.bind_eq_some_iff.1 h
      obtain ⟨r, hr, rfl⟩ := Option.map_eq_some_iff.1 h
      have hrest := ih hr
      exact (sameRoom_storeAt s _ _).trans hrest
    · obtain ⟨r, hr, rfl⟩ := Option.map_eq_some_iff.1 h
      have hrest := ih hr
      exact hrest

theorem sameRoom_fill (s : Writer) (p : Addr) (type : UInt8) (connId : UInt16) (payload : List UInt8) :
    SameRoom s (s.fill p type connId payload) :=
  ((sameRoom_storeAt s _ _).trans (sameRoom_storeAt _ _ _)).trans (sameRoom_storeAt _ _ _)

/-- `APB_WriteBuffer` puts nothing into buffers but checksums. -/
theorem sameRoom_writeBuffer {w : Option Write} (h : s.writeBuffer = some (s', w)) : SameRoom s s' := by
  have hpop : ∀ (t : Writer) (ob : ObPtr), SameRoom t (t.popBuffer ob) := by
    intro t ob
    unfold popBuffer
    split
    · have hr := sameRoom_setOb t ob (v := { t.obs ob with canRelease := true }) rfl
      exact ⟨hr.outBuf, hr.nextPackId, hr.buf, hr.filled⟩
    · exact .refl t
  unfold writeBuffer at h
  rcases hq : s.queue with _ | ⟨ob, q⟩ <;> rw [hq] at h
  · cases h
    exact .refl s
  · obtain ⟨⟨t, w'⟩, ht, he⟩ := Option.map_eq_some_iff.1 h
    cases he
    refine .trans ?_ (hpop t _)
    unfold sendBuffer at ht
    dsimp only at ht
    split at ht
    · obtain ⟨r, hr, he⟩ := Option.map_eq_some_iff.1 ht
      cases he
      have ho := sameRoom_setOb r.1 ob
        (v := { r.1.obs ob with offset := (r.1.bufs (s.obs ob).buf).offset }) rfl
      exact (sameRoom_sendPackets hr).trans ⟨ho.outBuf, ho.nextPackId, ho.buf, ho.filled⟩
    · cases ht
      exact .refl s

/-! ## Allocations -/

/-- **The current buffer has room, or a new one is begun.** -/
theorem currentBuffer_cases (h : s.currentBuffer al length = (s', some ob)) :
    s' = s ∧ s.outBuf = some ob ∧ (s.bufs (s.obs ob).buf).offset + length + 1 < bufferSize ∨
      ob ∉ s.obUse ∧ s'.outBuf = some ob ∧ (s'.bufs (s'.obs ob).buf).offset = 0 := by
  have hnew : s.newOutBuffer al = (s', some ob) →
      ob ∉ s.obUse ∧ s'.outBuf = some ob ∧ (s'.bufs (s'.obs ob).buf).offset = 0 := by
    intro h
    rcases newOutBuffer_cases al s with h₁ | ⟨c, hc, ⟨h₁, -⟩ | ⟨b, -, h₁⟩⟩ <;> rw [h] at h₁ <;> cases h₁
    refine ⟨hc, rfl, ?_⟩
    have hself : (({ s with obUse := ob :: s.obUse } : Writer).openBuffer ob b).obs ob = ⟨b, 0, 0, false⟩ :=
      obs_setOb_self
    rw [hself]
    exact congrArg Buffer.offset bufs_setBuf_self
  unfold currentBuffer at h
  split at h
  · exact .inr (hnew h)
  · next c hc =>
    split at h
    · exact .inr (hnew h)
    · next hroom =>
      cases h
      exact .inl ⟨rfl, hc, Nat.not_le.1 hroom⟩

/-- A search for a buffer takes no packet id, and if it finds none it leaves the others as they are. -/
theorem currentBuffer_none (h : s.currentBuffer al length = (s', none)) : SameRoom s s' := by
  have hnew : s.newOutBuffer al = (s', none) → SameRoom s s' := by
    intro h
    rcases newOutBuffer_cases al s with h₁ | ⟨c, hc, ⟨h₁, -⟩ | ⟨b, -, h₁⟩⟩ <;> rw [h] at h₁ <;> cases h₁
    · exact .refl s
    · exact ⟨rfl, rfl, fun _ => rfl, fun _ => rfl⟩
  unfold currentBuffer at h
  split at h
  · exact hnew h
  · split at h
    · exact hnew h
    · cases h

theorem currentBuffer_nextPackId (al : Alloc) (s : Writer) (length : Nat) :
    (s.currentBuffer al length).1.nextPackId = s.nextPackId := by
  have hnew : (s.newOutBuffer al).1.nextPackId = s.nextPackId := by
    rcases newOutBuffer_cases al s with h | ⟨c, -, ⟨h, -⟩ | ⟨b, -, h⟩⟩ <;> rw [h]
    rfl
  unfold currentBuffer
  split
  · exact hnew
  · split
    · exact hnew
    · rfl

/-- **An allocation succeeds** if and only if the pools have what it needs. -/
theorem alloc_some (v : s.Valid S U) (ha : Allocates al s length) (packId : UInt16) : ∃ s₁ ob s',
    s.currentBuffer al length = (s₁, some ob) ∧
    allocPacketWithId al s length packId =
      some (s', some ((s₁.obs ob).buf, (s₁.bufs (s₁.obs ob).buf).offset)) ∧
    s'.outBuf = s₁.outBuf ∧ s'.nextPackId = s.nextPackId ∧ (∀ c, (s'.obs c).buf = (s₁.obs c).buf) ∧
    (s'.bufs (s₁.obs ob).buf).offset = (s₁.bufs (s₁.obs ob).buf).offset + (length + length % 2) := by
  obtain ⟨h14, hle, hsome, hp⟩ := ha
  obtain ⟨g₁, -, hsame, -, hroom⟩ := currentBuffer_good al v.toGood hle
  have hnext := currentBuffer_nextPackId al s length
  rcases hcur : s.currentBuffer al length with ⟨s₁, _ | ob⟩ <;> rw [hcur] at g₁ hsame hsome hp hroom hnext
  · cases hsome
  have v₁ : s₁.Valid S U := ⟨g₁, hsame.recents.trans v.recents, hsame.recentCount.trans v.recentCount⟩
  obtain ⟨hob, hroom⟩ := hroom ob rfl
  obtain ⟨s', k, ht, -⟩ := addPacket_valid v₁ hob h14 hle hroom packId
  obtain ⟨d, a, hadd, -, -, -, -, hdata⟩ := addPacket_spec s₁ ob packId h14 hle
  have hsize : a.size = length + length % 2 := by
    simp only [sizeofPacket] at h14
    simp only [Incoming.size, hdata, sizeofPacket]
    omega
  have hr := sameRoom_trim ht
  rw [hadd] at hr
  have hb := sameRoom_setOb (s₁.setBuf (s₁.obs ob).buf ⟨(s₁.bufs (s₁.obs ob).buf).offset + a.size, d⟩) ob
    (v := { s₁.obs ob with packetCount := ((s₁.obs ob).packetCount + 1) % 65536 }) rfl
  refine ⟨s₁, ob, { s' with recents := s'.recents ++ [(s₁.addPacket ob length packId).2],
                            recentCount := (s'.recentCount + 1) % 65536 }, rfl, ?_,
    hr.outBuf, hr.nextPackId.trans hnext, fun c => (hr.buf c).trans (hb.buf c), ?_⟩
  · unfold allocPacketWithId
    rw [if_neg (Nat.not_lt.2 hle), if_neg (Nat.not_lt.2 h14), hcur]
    dsimp only at hp ⊢
    rw [if_pos hp, ht, Option.map_some, hadd]
  · refine (hr.filled _).trans ?_
    rw [bufs_setOb, bufs_setBuf_self, hsize]

theorem outBuf_inUse (v : s.Valid S U) (hob : s.outBuf = some ob) : ob ∈ s.obUse := by
  rw [v.pools.outBuf] at hob
  exact v.pools.obUse ob (.inl (List.mem_of_getLast? hob))

/-- What a call leaves that finds no object: no packet, but maybe an empty buffer, or one that nobody knows. -/
theorem alloc_none (v : s.Valid S U) (packId : UInt16) (ha : ¬Allocates al s length) :
    ∃ s', allocPacketWithId al s length packId = some (s', none) ∧ s'.nextPackId = s.nextPackId ∧
      (s'.outBuf = s.outBuf → SameRoom s s') := by
  unfold allocPacketWithId
  by_cases hle : bufferSize < length
  · exact ⟨s, if_pos hle, rfl, fun _ => .refl s⟩
  rw [if_neg hle]
  by_cases h14 : length < sizeofPacket
  · exact ⟨s, if_pos h14, rfl, fun _ => .refl s⟩
  rw [if_neg h14]
  have hnext := currentBuffer_nextPackId al s length
  rcases hcur : s.currentBuffer al length with ⟨s₁, _ | ob⟩ <;> rw [hcur] at hnext
  · exact ⟨s₁, rfl, hnext, fun _ => currentBuffer_none hcur⟩
  · have hp : ¬al.outPacket s₁ = true := fun hp => by
      refine ha ⟨Nat.not_lt.1 h14, Nat.not_lt.1 hle, ?_, ?_⟩ <;> rw [hcur]
      · rfl
      · exact hp
    refine ⟨s₁, if_neg hp, hnext, fun ho => ?_⟩
    rcases currentBuffer_cases hcur with ⟨rfl, -⟩ | ⟨hnew, hob, -⟩
    · exact .refl s₁
    · exact absurd (outBuf_inUse v (ho.symm.trans hob)) hnew

end Writer

namespace Tx

open Writer

variable {x x' : Tx} {S U : List Listed} {g : List Handed} {length : Nat} {packId : UInt16}

/-! ## The packets of the current buffer -/

/-- Where the room of a packet ends. -/
def Handed.stop (h : Handed) : Nat := h.pac.2 + (h.length + h.length % 2)

/-- What a step makes of the packets of the current buffer: they are others when `pw_OutBuf` is. -/
def layBy (x : Tx) (e : Event) (g : List Handed) : List Handed :=
  (if (step x e).map (fun x' => x'.wr.outBuf) = some x.wr.outBuf then g else []) ++ handedBy x e

/-- The packets that were put into what is the current buffer after a run. -/
def laid (x : Tx) (es : List Event) : List Handed := noted layBy step [] x es

/-- What a call of `APB_AllocPacketWithId` touches is in the current buffer, behind the packets that are there. -/
def StaysInside (al : Alloc) (s : Writer) (length : Nat) (packId : UInt16) (earlier : List Handed) : Prop :=
  ∀ s' p, allocPacketWithId al s length packId = some (s', some p) →
    (∃ ob, s'.outBuf = some ob ∧ p.1 = (s'.obs ob).buf) ∧ (s'.bufs p.1).offset ≤ bufferSize ∧
    ∀ a ∈ touched p.2 length packId, a.2 ≤ bufferSize ∧
      (s'.outBuf = s.outBuf → ∀ h ∈ earlier, h.pac.1 = p.1 ∧ h.stop ≤ a.1)

/-- The packets lie before `b_Offset`. -/
def LaidBelow (s : Writer) (g : List Handed) : Prop :=
  ∀ h ∈ g, ∃ ob, s.outBuf = some ob ∧ h.pac.1 = (s.obs ob).buf ∧ h.stop ≤ (s.bufs (s.obs ob).buf).offset

theorem LaidBelow.same {s s' : Writer} (h : LaidBelow s g) (hs : SameRoom s s') : LaidBelow s' g := by
  intro p hp
  obtain ⟨ob, hob, hb, hle⟩ := h p hp
  refine ⟨ob, hs.outBuf.trans hob, hb.trans (hs.buf ob).symm, ?_⟩
  rw [hs.buf, hs.filled]
  exact hle

theorem LaidBelow.step (v : x.Inv S U) (h : LaidBelow x.wr g) {e : Event} (hs : Tx.step x e = some x') :
    LaidBelow x'.wr (layBy x e g) := by
  have hkeep : SameRoom x.wr x'.wr → handedBy x e = [] → LaidBelow x'.wr (layBy x e g) := by
    intro hr hh
    unfold layBy
    rw [hs, Option.map_some, hr.outBuf, if_pos rfl, hh, List.append_nil]
    exact h.same hr
  cases e with
  | alloc al packId length type connId payload =>
    have hv := valid_asked packId v.toValid
    have hask : (asked x.wr packId).1.outBuf = x.wr.outBuf := by cases packId <;> rfl
    have h₁ : LaidBelow (asked x.wr packId).1 g := by cases packId <;> exact h
    have hstep := hs
    simp only [Tx.step, allocate_eq] at hs
    by_cases ha : Allocates al (asked x.wr packId).1 length
    case neg =>
      obtain ⟨w, hw, -, hsame⟩ := alloc_none hv (asked x.wr packId).2 ha
      rw [hw, Option.map_some, Option.some.injEq] at hs
      have hhand : handedBy x (.alloc al packId length type connId payload) = [] := by
        simp [handedBy, allocate_eq, hw]
      unfold layBy
      rw [hstep, Option.map_some, hhand, List.append_nil]
      subst hs
      rw [hask] at hsame
      split
      · next ho => exact h₁.same (hsame (Option.some.inj ho))
      · exact fun _ hp => by cases hp
    obtain ⟨s₁, ob, w, hcur, hw, hob, -, hbuf, hoff⟩ := alloc_some hv ha (asked x.wr packId).2
    rw [hw, Option.map_some, Option.some.injEq] at hs
    have hhand : handedBy x (.alloc al packId length type connId payload) =
        [⟨((s₁.obs ob).buf, (s₁.bufs (s₁.obs ob).buf).offset), length, (asked x.wr packId).2, packId.isNone⟩] := by
      simp [handedBy, allocate_eq, hw]
    have hr : SameRoom w x'.wr := by
      subst hs
      exact sameRoom_fill ..
    have hwhere := currentBuffer_cases hcur
    have hob₁ : s₁.outBuf = some ob := by
      rcases hwhere with ⟨rfl, hob₁, -⟩ | ⟨-, hob₁, -⟩
      · exact hob₁
      · exact hob₁
    unfold layBy
    rw [hstep, Option.map_some, hhand]
    have hall : ∀ q ∈ (if some x'.wr.outBuf = some x.wr.outBuf then g else []), ∃ c, w.outBuf = some c ∧
        q.pac.1 = (w.obs c).buf ∧ q.stop ≤ (w.bufs (w.obs c).buf).offset := by
      intro q hq
      split at hq
      · next ho =>
        rcases hwhere with ⟨rfl, -⟩ | ⟨hnew, hob₂, -⟩
        · obtain ⟨c, hc, hb, hle⟩ := h₁ q hq
          rw [hob₁, Option.some.injEq] at hc
          subst hc
          refine ⟨ob, hob.trans hob₁, hb.trans (hbuf ob).symm, ?_⟩
          rw [hbuf, hoff]
          omega
        · refine absurd (outBuf_inUse hv ?_) hnew
          rw [hask, ← Option.some.inj ho, hr.outBuf, hob, hob₁]
      · cases hq
    have hlast : LaidBelow w [⟨((s₁.obs ob).buf, (s₁.bufs (s₁.obs ob).buf).offset), length, (asked x.wr packId).2,
        packId.isNone⟩] := by
      intro q hq
      rw [List.mem_singleton] at hq
      subst hq
      refine ⟨ob, hob.trans hob₁, (hbuf ob).symm, ?_⟩
      rw [hbuf, hoff]
      exact Nat.le_refl _
    refine LaidBelow.same (fun q hq => ?_) hr
    rcases List.mem_append.1 hq with hq | hq
    · exact hall q hq
    · exact hlast q hq
  | write =>
    simp only [Tx.step] at hs
    obtain ⟨⟨w, r⟩, hw, rfl⟩ := Option.map_eq_some_iff.1 hs
    exact hkeep (sameRoom_writeBuffer hw) rfl
  | complete =>
    cases hs
    exact hkeep (.refl _) rfl
  | resend al packId =>
    simp only [Tx.step, resendPacket_eq v.toValid, Option.map_some, Option.some.injEq] at hs
    subst hs
    exact hkeep (.refl _) rfl

/-- A call stays inside exactly when it does not succeed for a packet that is one byte shorter than the buffer. -/
theorem staysInside_iff (v : x.Inv S U) (hg : LaidBelow x.wr g) (al : Alloc) (length : Nat) (packId : UInt16) :
    StaysInside al x.wr length packId g ↔ ¬(length = bufferSize - 1 ∧ Allocates al x.wr length) := by
  refine ⟨?_, fun h s' p hal => ?_⟩
  · rintro h ⟨rfl, ha⟩
    obtain ⟨s₁, ob, s', -, hal, -⟩ := alloc_some v.toValid ha packId
    obtain ⟨-, -, hin⟩ := h s' _ hal
    -- the byte that is cleared is the one after the buffer
    have hmem : ∀ off, (off + bufferSize, off + bufferSize + 1) ∈ touched off (bufferSize - 1) packId := by
      intro off
      simp [touched, packetStores, bufferSize]
    have := (hin _ (hmem _)).1
    simp only [bufferSize] at this
    omega
  · by_cases ha : Allocates al x.wr length
    case neg =>
      obtain ⟨t, ht, -⟩ := alloc_none v.toValid packId ha
      rw [ht] at hal
      cases hal
    obtain ⟨s₁, ob, t, hcur, ht, hob, -, hbuf, hoff⟩ := alloc_some v.toValid ha packId
    rw [ht, Option.some.injEq, Prod.mk.injEq, Option.some.injEq] at hal
    obtain ⟨rfl, rfl⟩ := hal
    have h4095 : length ≠ bufferSize - 1 := fun he => h ⟨he, ha⟩
    obtain ⟨h14, hle, -, -⟩ := ha
    have hb := touched_bounds (s₁.bufs (s₁.obs ob).buf).offset packId h14
    have hwhere := currentBuffer_cases hcur
    have hroom : (s₁.bufs (s₁.obs ob).buf).offset + length + (if length % 2 = 1 then 2 else 0) ≤ bufferSize ∧
        (s₁.bufs (s₁.obs ob).buf).offset + (length + length % 2) ≤ bufferSize := by
      simp only [bufferSize] at *
      rcases hwhere with ⟨rfl, -, hlt⟩ | ⟨-, -, h0⟩ <;> split <;> omega
    refine ⟨⟨ob, ?_, (hbuf ob).symm⟩, ?_, fun a haa => ⟨Nat.le_trans (hb a haa).2 hroom.1, fun hsame q hq => ?_⟩⟩
    · rcases hwhere with ⟨rfl, hob₁, -⟩ | ⟨-, hob₁, -⟩
      · exact hob.trans hob₁
      · exact hob.trans hob₁
    · rw [hoff]
      exact hroom.2
    · obtain ⟨c, hc, hqb, hqs⟩ := hg q hq
      rcases hwhere with ⟨rfl, hob₁, -⟩ | ⟨hnew, hob₁, -⟩
      · rw [hob₁, Option.some.injEq] at hc
        subst hc
        exact ⟨hqb, Nat.le_trans hqs (hb a haa).1⟩
      · exact absurd (outBuf_inUse v.toValid (hsame.symm.trans (hob.trans hob₁))) hnew

/-- **What the writer stores stays inside its buffer**, and away from the packets there, unless the packet is one byte
shorter than the buffer. -/
theorem stores_inside (obs : ObPtr → OutBuffer) (bufs : BufPtr → Buffer) (es : List Event) :
    ∃ x : Tx, runs step (start obs bufs) es = some x ∧ ∀ al length packId,
      StaysInside al x.wr length packId (laid (start obs bufs) es) ↔
        ¬(length = bufferSize - 1 ∧ Allocates al x.wr length) := by
  obtain ⟨x, hx, -⟩ := reached_inv obs bufs es
  obtain ⟨S, U, v, hg⟩ : ∃ S U, x.Inv S U ∧ LaidBelow x.wr (laid (start obs bufs) es) := by
    have hI : ∃ S U, (start obs bufs).Inv S U ∧ LaidBelow (start obs bufs).wr [] :=
      ⟨[], [], start_inv obs bufs, fun _ h => by cases h⟩
    have hany : Along (fun _ _ => True) step (start obs bufs) es := along_of_forall (fun _ _ => trivial) es _
    refine noted_inv (fun x g => ∃ S U, x.Inv S U ∧ LaidBelow x.wr g) ?_ hI hany hx
    rintro y e y' g ⟨_, _, v, h⟩ - hs
    obtain ⟨y₁, hy, S', U', v'⟩ := step_inv v e
    rw [hs, Option.some.injEq] at hy
    subst hy
    exact ⟨S', U', v', h.step v hs⟩
  exact ⟨x, hx, fun al length packId => staysInside_iff v hg al length packId⟩

/-- **A store behind the buffer**: the first packet takes 4095 bytes. -/
theorem store_behind_buffer : ¬StaysInside .unbounded fresh.wr (bufferSize - 1) 1 (laid fresh []) := by
  intro h
  have hg : LaidBelow fresh.wr (laid fresh []) := fun _ h => by cases h
  refine (staysInside_iff (start_inv _ _) hg .unbounded _ 1).1 h ⟨rfl, ?_⟩
  unfold Allocates
  decide

end Tx

end AmiPiBorg
