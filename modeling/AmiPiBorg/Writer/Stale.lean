import AmiPiBorg.Writer.Alike

/-!
# Stale bytes

The pool's buffers are not cleared, and the packet reader uses them too, so a buffer that the writer does not use may
hold anything. `Determined` says that this makes no difference to what is sent. It does for packets of odd length: the
byte that `APB_AllocPacketWithId` clears is not the pad byte but the one after it, and the pad byte goes out as the
buffer has it (`sentBytes_pad`). `wire_determined_iff` says that nothing else does.

`Padded C` is the invariant: every pad byte, and every byte of a buffer behind what is filled, is one of `C`, if the
buffers hold nothing else when they are taken.
-/

set_option autoImplicit false

namespace AmiPiBorg

open ProgLib

namespace Writer

variable {s s' t : Writer} {al : Alloc} {ob : ObPtr} {b : BufPtr} {k length : Nat} {packId : UInt16} {S U : List Listed}
  {ops : List OutPacket} {r : Option Write} {C : Set UInt8}

/-! ## What is stored where -/

theorem newOutBuffer_contents (al : Alloc) (s : Writer) :
    (∀ b, ((s.newOutBuffer al).1.bufs b).data = (s.bufs b).data) ∧
      ∀ b ∈ s.bufUse, b ∈ (s.newOutBuffer al).1.bufUse ∧ (s.newOutBuffer al).1.bufs b = s.bufs b := by
  rcases newOutBuffer_cases al s with h | ⟨ob, -, ⟨h, -⟩ | ⟨c, hc, h⟩⟩ <;> rw [h]
  · exact ⟨fun _ => rfl, fun b hb => ⟨hb, rfl⟩⟩
  · exact ⟨fun _ => rfl, fun b hb => ⟨hb, rfl⟩⟩
  · refine ⟨fun b => ?_, fun b hb => ⟨List.mem_cons_of_mem _ hb, bufs_setBuf_of_ne fun he => hc (he ▸ hb)⟩⟩
    show (Function.update s.bufs c _ b).data = _
    by_cases hbc : b = c
    · rw [hbc, Function.update_self]
    · rw [Function.update_of_ne hbc]

/-- Taking a buffer stores nothing in it, and leaves the others alone. -/
theorem currentBuffer_contents (al : Alloc) (s : Writer) (length : Nat) :
    (∀ b, ((s.currentBuffer al length).1.bufs b).data = (s.bufs b).data) ∧
      ∀ b ∈ s.bufUse, b ∈ (s.currentBuffer al length).1.bufUse ∧ (s.currentBuffer al length).1.bufs b = s.bufs b := by
  unfold currentBuffer
  split
  · exact newOutBuffer_contents al s
  · split
    · exact newOutBuffer_contents al s
    · exact ⟨fun _ => rfl, fun b hb => ⟨hb, rfl⟩⟩

theorem trim_contents (h : trim ops s = some s') : s'.bufs = s.bufs ∧ ∀ b ∈ s'.bufUse, b ∈ s.bufUse := by
  induction ops generalizing s with
  | nil =>
    unfold trim at h
    split at h
    · cases h
      exact ⟨rfl, fun b hb => hb⟩
    · cases h
  | cons op ops ih =>
    unfold trim at h
    split at h
    · cases h
      exact ⟨rfl, fun b hb => hb⟩
    · dsimp only at h
      split at h
      · obtain ⟨hbufs, huse⟩ := ih h
        exact ⟨hbufs.trans (releaseOutPacket_bufs s op), fun b hb => releaseOutPacket_bufUse s op b (huse b hb)⟩
      · cases h
        exact ⟨rfl, fun b hb => hb⟩

/-- What an allocation that fails has changed. -/
theorem alloc_failed (h : allocPacketWithId al s length packId = some (s', none)) :
    s' = s ∨ s' = (s.currentBuffer al length).1 := by
  unfold allocPacketWithId at h
  split at h
  · cases h
    exact .inl rfl
  · split at h
    · cases h
      exact .inl rfl
    · rcases hcur : s.currentBuffer al length with ⟨s₁, _ | ob⟩ <;> rw [hcur] at h <;> dsimp only at h
      · cases h
        exact .inr rfl
      · split at h
        · obtain ⟨s₂, -, he⟩ := Option.map_eq_some_iff.1 h
          cases he
        · cases h
          exact .inr rfl

/-- What an allocation leaves in the buffers. -/
theorem alloc_contents {p : Addr} (h : allocPacketWithId al s length packId = some (s', some p)) :
    ∃ s₁ ob, s.currentBuffer al length = (s₁, some ob) ∧ sizeofPacket ≤ length ∧ length ≤ bufferSize ∧
      p = ((s₁.obs ob).buf, (s₁.bufs (s₁.obs ob).buf).offset) ∧ s'.bufs = (s₁.addPacket ob length packId).1.bufs ∧
      ∀ b ∈ s'.bufUse, b ∈ s₁.bufUse := by
  unfold allocPacketWithId at h
  split at h
  · cases h
  next hbig =>
    split at h
    · cases h
    next hsmall =>
      rcases hcur : s.currentBuffer al length with ⟨s₁, _ | ob⟩ <;> rw [hcur] at h <;> dsimp only at h
      · cases h
      · split at h
        · obtain ⟨s₂, htrim, he⟩ := Option.map_eq_some_iff.1 h
          cases he
          obtain ⟨hbufs, huse⟩ := trim_contents htrim
          obtain ⟨d, a, hadd, -⟩ := addPacket_spec s₁ ob packId (Nat.not_lt.1 hsmall) (Nat.not_lt.1 hbig)
          refine ⟨s₁, ob, rfl, Nat.not_lt.1 hsmall, Nat.not_lt.1 hbig, ?_, hbufs, fun b hb => ?_⟩
          · rw [hadd]
          · have hb := huse b hb
            rw [hadd] at hb
            exact hb
        · cases h

/-- The packet takes its length, and a pad byte. -/
theorem addPacket_filled (h14 : sizeofPacket ≤ length) (hle : length ≤ bufferSize) :
    ((s.addPacket ob length packId).1.bufs b).offset = (s.bufs b).offset +
      if b = (s.obs ob).buf then length + length % 2 else 0 := by
  obtain ⟨d, a, hadd, -, -, -, -, hdata⟩ := addPacket_spec s ob packId h14 hle
  have hsize : a.size = length + length % 2 := by
    simp only [sizeofPacket] at h14
    simp only [Incoming.size, hdata, sizeofPacket]
    omega
  rw [hadd, bufs_setOb, bufs_setBuf]
  split
  next hb => rw [hb, hsize]
  next => rfl

/-- A store changes its own range. -/
theorem storeAt_apart (s : Writer) {p : Addr} {bs : List UInt8} (hk : b = p.1 → k < p.2 ∨ p.2 + bs.length ≤ k) :
    ((s.storeAt p bs).bufs b).data k = (s.bufs b).data k := by
  unfold storeAt
  rw [bufs_setBuf]
  split
  next hb =>
    subst hb
    obtain hlt | hge := hk rfl
    · exact Mem.store_of_lt hlt
    · exact Mem.store_of_ge hge
  next => rfl

theorem stores_apart {ws : List (Nat × List UInt8)} {m : Mem} (h : ∀ w ∈ ws, k < w.1 ∨ w.1 + w.2.length ≤ k) :
    ws.foldl (fun m w => m.store w.1 w.2) m k = m k := by
  induction ws generalizing m with
  | nil => rfl
  | cons w ws ih =>
    obtain ⟨hw, hws⟩ := List.forall_mem_cons.1 h
    rw [List.foldl_cons, ih hws]
    exact hw.elim Mem.store_of_lt Mem.store_of_ge

/-- The pad byte is none of those that `APB_AllocPacketWithId` stores. -/
theorem packetStores_apart {off : Nat} (packId : UInt16) (h14 : sizeofPacket ≤ length)
    (hk : k < off ∨ k = off + length ∨ off + length + length % 2 < k) :
    ∀ w ∈ packetStores off length packId, k < w.1 ∨ w.1 + w.2.length ≤ k := by
  simp only [sizeofPacket] at h14
  intro w hw
  unfold packetStores at hw
  by_cases hodd : length % 2 = 1
  · simp only [hodd, List.mem_append, List.mem_cons, List.not_mem_nil, if_true, or_false] at hw
    rcases hw with (rfl | rfl | rfl | rfl | rfl) | (rfl | rfl) <;>
      simp only [length_be16, length_be32, List.length_singleton] <;> omega
  · simp only [hodd, List.mem_append, List.mem_cons, List.not_mem_nil, if_false, or_false] at hw
    rcases hw with rfl | rfl | rfl | rfl | rfl <;>
      simp only [length_be16, length_be32, List.length_singleton] <;> omega

/-- **A new packet and what its caller stores** are stored in front of the pad byte. The byte that is cleared lies behind
it. -/
theorem stored_apart {p : Addr} {type : UInt8} {connId : UInt16} {payload : List UInt8} (h14 : sizeofPacket ≤ length)
    (hp : p = ((s.obs ob).buf, (s.bufs (s.obs ob).buf).offset)) (hbufs : t.bufs = (s.addPacket ob length packId).1.bufs)
    (hpay : payload.length = length - sizeofPacket)
    (hk : b = p.1 → k < p.2 ∨ k = p.2 + length ∨ p.2 + length + length % 2 < k) :
    ((t.fill p type connId payload).bufs b).data k = (s.bufs b).data k := by
  have hout : ∀ i n, i + n ≤ length → b = p.1 → k < p.2 + i ∨ p.2 + i + n ≤ k := fun i n hi hb => by
    have := hk hb
    omega
  have hfill : ((t.fill p type connId payload).bufs b).data k = (t.bufs b).data k := by
    simp only [sizeofPacket] at h14 hpay
    unfold fill
    rw [storeAt_apart _ (hout sizeofPacket _ (by rw [hpay]; simp only [sizeofPacket]; omega)),
      storeAt_apart _ (hout 6 2 (by omega)), storeAt_apart _ (hout 4 1 (by omega))]
  rw [hfill, hbufs, bufs_addPacket]
  split
  next hb =>
    have hk := hk (by rw [hp]; exact hb)
    rw [hp, ← hb] at hk
    exact stores_apart (packetStores_apart packId h14 hk)
  next => rfl

/-- The byte is not one of a checksum that the loop over `ops` fills in. -/
def NoChecksum (ob : ObPtr) (ops : List OutPacket) (b : BufPtr) (k : Nat) : Prop :=
  ∀ op ∈ ops, op.outBuf = ob → op.sent = false → op.pac.1 = b → k < op.pac.2 + 10 ∨ op.pac.2 + 12 ≤ k

theorem sendPackets_contents {u : Writer × List OutPacket} (h : sendPackets ob s ops = some u)
    (hk : NoChecksum ob ops b k) : (u.1.bufs b).data k = (s.bufs b).data k := by
  induction ops generalizing s u with
  | nil =>
    cases h
    rfl
  | cons op ops ih =>
    have hrest : NoChecksum ob ops b k := fun op' hop => hk op' (List.mem_cons_of_mem _ hop)
    unfold sendPackets at h
    split at h
    case isTrue hop =>
      obtain ⟨c, -, h⟩ := Option.bind_eq_some_iff.1 h
      obtain ⟨w, hw, rfl⟩ := Option.map_eq_some_iff.1 h
      refine (ih hw hrest).trans (storeAt_apart s fun hb => ?_)
      exact hk op List.mem_cons_self hop.1 hop.2 hb.symm
    case isFalse hop =>
      obtain ⟨w, hw, rfl⟩ := Option.map_eq_some_iff.1 h
      have hsame := ih hw hrest
      exact hsame

/-- **`APB_WriteBuffer`** stores checksums in the packets of the head buffer that are not sent. -/
theorem writeBuffer_contents (h : s.writeBuffer = some (s', r))
    (hk : ∀ ob ∈ s.queue.head?, NoChecksum ob s.recents b k) : (s'.bufs b).data k = (s.bufs b).data k := by
  have hpop : ∀ (t : Writer) (ob : ObPtr), (t.popBuffer ob).bufs = t.bufs := by
    intro t ob
    unfold popBuffer
    split <;> rfl
  unfold writeBuffer at h
  cases hq : s.queue with
  | nil =>
    rw [hq] at h
    cases h
    rfl
  | cons ob q =>
    rw [hq] at h hk
    obtain ⟨⟨t, w⟩, ht, he⟩ := Option.map_eq_some_iff.1 h
    cases he
    rw [hpop]
    unfold sendBuffer at ht
    dsimp only at ht
    split at ht
    · obtain ⟨u, hu, he⟩ := Option.map_eq_some_iff.1 ht
      cases he
      have hsame := sendPackets_contents hu (hk ob rfl)
      exact hsame
    · cases ht
      rfl

/-- Packets that are listed and not sent are those of `U`. -/
theorem Valid.unsent (v : s.Valid S U) {op : OutPacket} (hop : op ∈ s.recents) (hsent : op.sent = false) :
    ∃ z ∈ U, z.1 = op := by
  rw [v.recents] at hop
  obtain ⟨z, hz, rfl⟩ := List.mem_map.1 hop
  rcases List.mem_append.1 hz with hz | hz
  · rw [(v.sent z hz).sent] at hsent
    cases hsent
  · exact ⟨z, hz, rfl⟩

/-- There are as many packets in `U`. -/
theorem Valid.length_unsent (v : s.Valid S U) : (s.recents.countP fun op => !op.sent) = U.length := by
  have hS : (S.map Prod.fst).countP (fun op => !op.sent) = 0 := List.countP_eq_zero.2 fun op hop => by
    obtain ⟨z, hz, rfl⟩ := List.mem_map.1 hop
    simp [(v.sent z hz).sent]
  have hU : (U.map Prod.fst).countP (fun op => !op.sent) = (U.map Prod.fst).length :=
    List.countP_eq_length.2 fun op hop => by
      obtain ⟨z, hz, rfl⟩ := List.mem_map.1 hop
      simp [(v.pending.owner z hz).2]
  rw [v.recents, List.map_append, List.countP_append, hS, hU, Nat.zero_add, List.length_map]

theorem Region.word10 {i j : Nat} (h : s.Region ob i U j) : ∀ z ∈ U, (s.mem z.1.pac).word 10 = 0 := by
  induction h with
  | nil => exact fun z hz => by cases hz
  | cons _ h₁₀ _ ih =>
    intro z hz
    rcases List.mem_cons.1 hz with rfl | hz
    · exact h₁₀
    · exact ih z hz

/-- Packets have no checksum before they are sent. -/
theorem Pending.word10 {q : List ObPtr} (h : s.Pending q U) : ∀ z ∈ U, (s.mem z.1.pac).word 10 = 0 := by
  induction h with
  | nil => exact fun z hz => by cases hz
  | cons hr _ ih =>
    intro z hz
    rcases List.mem_append.1 hz with hz | hz
    · exact hr.word10 z hz
    · exact ih z hz

/-- A packet that is not sent is in a buffer that is in use, in front of what is free there. -/
theorem Valid.unsent_inside (v : s.Valid S U) : ∀ z ∈ U, z.1.pac.1 ∈ s.bufUse ∧
    z.1.pac.2 + z.2.size ≤ (s.bufs z.1.pac.1).offset ∧ z.2.size ≤ bufferSize := by
  intro z hz
  obtain ⟨hb, hle⟩ := v.pending.inside z hz
  have hlive : s.Live (owners (S ++ U)) z.1.outBuf := .inl (v.pending.owner z hz).1
  have hfull := v.pools.full z.1.outBuf hlive
  rw [← hb] at hle hfull
  exact ⟨hb ▸ v.pools.bufUse _ hlive, hle, Nat.le_trans (Nat.le_trans (Nat.le_add_left ..) hle) hfull⟩

/-! ## Bytes of `C` -/

/-- What lies behind the filled part of the buffers is of `C`. -/
def Behind (C : Set UInt8) (s : Writer) : Prop := ∀ b ∈ s.bufUse, ∀ k, (s.bufs b).offset < k → (s.bufs b).data k ∈ C

/-- What the buffers hold that are not in use is of `C`. -/
def Unused (C : Set UInt8) (s : Writer) : Prop := ∀ b ∉ s.bufUse, ∀ k, (s.bufs b).data k ∈ C

/-- The pad bytes of the packets `U` are of `C`. -/
def Pads (C : Set UInt8) (U : List Listed) (s : Writer) : Prop :=
  ∀ z ∈ U, z.2.data.length % 2 = 1 → s.mem z.1.pac (sizeofPacket + z.2.data.length) ∈ C

/-- A buffer that is taken has been one of those not in use. -/
theorem Behind.currentBuffer (h : s.Behind C) (hf : s.Unused C) (al : Alloc) (length : Nat) :
    (s.currentBuffer al length).1.Behind C := by
  obtain ⟨hdata, hsame⟩ := currentBuffer_contents al s length
  intro b hb k hk
  rw [hdata]
  by_cases hbs : b ∈ s.bufUse
  · rw [(hsame b hbs).2] at hk
    exact h b hbs k hk
  · exact hf b hbs k

theorem Pads.congr (h : s.Pads C U) (hd : ∀ z ∈ U, z.2.data.length % 2 = 1 →
    (t.bufs z.1.pac.1).data (z.1.pac.2 + (sizeofPacket + z.2.data.length)) =
      (s.bufs z.1.pac.1).data (z.1.pac.2 + (sizeofPacket + z.2.data.length))) : t.Pads C U := by
  intro z hz hodd
  have hin := h z hz hodd
  unfold mem Mem.from_ at hin ⊢
  rw [hd z hz hodd]
  exact hin

/-- The pad byte lies in front of what is free. -/
theorem Valid.pad_inside (v : s.Valid S U) {z : Listed} (hz : z ∈ U) (hodd : z.2.data.length % 2 = 1) :
    z.1.pac.2 + (sizeofPacket + z.2.data.length) < (s.bufs z.1.pac.1).offset := by
  obtain ⟨-, hle, -⟩ := v.unsent_inside z hz
  unfold Incoming.size at hle
  omega

/-- **An allocation**: the pad byte of the new packet has been in the buffer before. -/
theorem alloc_padded {p : Addr} {type : UInt8} {connId : UInt16} {payload : List UInt8}
    (h : allocPacketWithId al s length packId = some (t, some p)) (v : s.Valid S U) (hb : s.Behind C) (hf : s.Unused C)
    (hp : s.Pads C U) (hpay : payload.length = length - sizeofPacket) : (t.fill p type connId payload).Behind C ∧
      (t.fill p type connId payload).Pads C U ∧
      (t.fill p type connId payload).mem p (sizeofPacket + payload.length) ∈ C := by
  obtain ⟨s₁, ob, hcur, h14, hle, hpob, hbufs, huse⟩ := alloc_contents h
  obtain ⟨hdata, hsame⟩ := currentBuffer_contents al s length
  have hb₁ := hb.currentBuffer hf al length
  obtain ⟨g₁, -, -, -, hroom⟩ := currentBuffer_good al v.toGood hle
  rw [hcur] at hdata hsame hb₁ g₁ hroom
  dsimp only at hdata hsame hb₁
  have hin : (s₁.obs ob).buf ∈ s₁.bufUse :=
    g₁.pools.bufUse ob (.inl (List.mem_of_getLast? (g₁.pools.outBuf.symm.trans (hroom ob rfl).1)))
  have hstored : ∀ b k, (b = p.1 → k < p.2 ∨ k = p.2 + length ∨ p.2 + length + length % 2 < k) →
      ((t.fill p type connId payload).bufs b).data k = (s₁.bufs b).data k := fun b k =>
    stored_apart h14 hpob hbufs hpay
  have hfilled : ∀ b, ((t.fill p type connId payload).bufs b).offset =
      (s₁.bufs b).offset + if b = p.1 then length + length % 2 else 0 := fun b => by
    rw [(sameRoom_fill t p type connId payload).filled, hbufs, addPacket_filled h14 hle, hpob]
  have hoff : (s₁.bufs p.1).offset = p.2 := by rw [hpob]
  refine ⟨fun b hb k hk => ?_, hp.congr fun z hz hodd => ?_, ?_⟩
  · rw [hfilled] at hk
    rw [hstored b k fun he => ?_]
    · exact hb₁ b (huse b hb) k (Nat.lt_of_le_of_lt (Nat.le_add_right ..) hk)
    · rw [if_pos he, he, hoff] at hk
      omega
  · obtain ⟨huse, -, -⟩ := v.unsent_inside z hz
    have hlt := v.pad_inside hz hodd
    rw [hstored _ _ fun he => .inl ?_, hdata]
    rw [← (hsame _ huse).2, he, hoff] at hlt
    exact hlt
  · rw [hpay, Nat.add_sub_cancel' h14]
    show ((t.fill p type connId payload).bufs p.1).data (p.2 + length) ∈ C
    rw [hstored _ _ fun _ => .inr (.inl rfl)]
    refine hb₁ p.1 (by rw [hpob]; exact hin) _ ?_
    rw [hoff]
    simp only [sizeofPacket] at h14
    omega

/-- The buffers behind the head buffer are others. -/
theorem Pools.ne_head {os : List ObPtr} (k : s.Pools os) (h : s.queue.head? = some ob) : ob ∉ s.queue.tail := by
  have hnd := k.nodup
  rw [← List.cons_head?_tail h, List.nodup_cons] at hnd
  exact hnd.1

/-- **A write** stores nothing in pad bytes, nor behind what is filled. -/
theorem write_padded {U₂ : List Listed} (h : s.writeBuffer = some (s', r)) (v : s.Valid S U) (hb : s.Behind C)
    (hp : s.Pads C U) (hU : ∀ z ∈ U₂, z ∈ U) (htail : ∀ z ∈ U₂, z.1.outBuf ∈ s.queue.tail)
    (huse : s'.bufUse = s.bufUse) : s'.Behind C ∧ s'.Pads C U₂ := by
  have hlive : ∀ z ∈ U, s.Live (owners (S ++ U)) z.1.outBuf := fun z hz => .inl (v.pending.owner z hz).1
  refine ⟨fun b hbu k hk => ?_, Pads.congr (fun z hz => hp z (hU z hz)) fun z hz hodd => ?_⟩
  · rw [huse] at hbu
    rw [(sameRoom_writeBuffer h).filled] at hk
    rw [writeBuffer_contents h fun ob _ op hop _ hsent he => .inr ?_]
    · exact hb b hbu k hk
    · obtain ⟨y, hy, rfl⟩ := v.unsent hop hsent
      obtain ⟨-, hle, -⟩ := v.unsent_inside y hy
      have h14 := Shows.sizeofPacket_le y.2
      simp only [sizeofPacket] at h14
      rw [he] at hle
      omega
  · refine writeBuffer_contents h fun ob hob op hop ho hsent he => ?_
    -- no packet of the head buffer lies where `z` lies
    obtain ⟨y, hy, rfl⟩ := v.unsent hop hsent
    have hbuf : (s.obs y.1.outBuf).buf = (s.obs z.1.outBuf).buf := by
      rw [← (v.pending.inside y hy).1, ← (v.pending.inside z (hU z hz)).1, he]
    have hsame := v.pools.inj _ _ (hlive y hy) (hlive z (hU z hz)) hbuf
    rw [← ho, hsame] at hob
    exact absurd (htail z hz) (v.pools.ne_head hob)

end Writer

namespace Tx

open Writer

variable {x x' y y' : Tx} {S U S' U' : List Listed} {e : Event} {es : List Event} {C D : Set UInt8} {a : Incoming}
  {bs bs' : List UInt8} {ys zs : List (Incoming × List UInt8)} {mem mem' : BufPtr → Mem}

/-! ## Buffers that others use -/

/-- Buffers that the writer does not use hold `mem`: the packet reader has had them, or nobody. -/
def reused (x : Tx) (mem : BufPtr → Mem) : Tx :=
  { x with wr := x.wr.withBufs fun b => if b ∈ x.wr.bufUse then x.wr.bufs b else { x.wr.bufs b with data := mem b } }

/-- One event, and what the buffers hold then that the writer does not use. -/
def stepOn (x : Tx) (me : (BufPtr → Mem) × Event) : Option Tx := (x.reused me.1).step me.2

theorem reused_offset (x : Tx) (mem : BufPtr → Mem) (b : BufPtr) :
    ((x.reused mem).wr.bufs b).offset = (x.wr.bufs b).offset := by
  show (if b ∈ x.wr.bufUse then x.wr.bufs b else { x.wr.bufs b with data := mem b }).offset = _
  split <;> rfl

theorem reused_bufs (mem : BufPtr → Mem) {b : BufPtr} (h : b ∈ x.wr.bufUse) : (x.reused mem).wr.bufs b = x.wr.bufs b :=
  if_pos h

theorem reused_unused (x : Tx) (h : ∀ b k, mem b k ∈ C) : (x.reused mem).wr.Unused C := by
  intro b hb k
  rw [show (x.reused mem).wr.bufs b = { x.wr.bufs b with data := mem b } from if_neg hb]
  exact h b k

theorem Inv.reused (v : x.Inv S U) (mem : BufPtr → Mem) : (x.reused mem).Inv S U := by
  have hbufs : ∀ ob, x.wr.Live (owners (S ++ U)) ob →
      (x.reused mem).wr.bufs (x.wr.obs ob).buf = x.wr.bufs (x.wr.obs ob).buf := fun ob h =>
    reused_bufs mem (v.pools.bufUse ob h)
  have hk : Keeps x.wr (x.reused mem).wr (owners (S ++ U)) :=
    ⟨fun _ _ => rfl, fun ob h k _ => by rw [hbufs ob h], fun _ _ => Nat.le_refl _, fun _ _ h => h⟩
  have hpools : (x.reused mem).wr.Pools (owners (S ++ U)) :=
    v.pools.congr rfl rfl rfl rfl rfl (fun _ => ⟨rfl, rfl, rfl⟩) (reused_offset x mem)
  exact ⟨⟨v.toGood.of_keeps hk (fun _ h => h) hpools
    (v.pending.frame (fun _ _ => ⟨rfl, rfl⟩) fun ob h => hbufs ob (.inl h)), v.recents, v.recentCount⟩, v.wire⟩

theorem Alike.reused (h : Alike x y) (mem mem' : BufPtr → Mem) : Alike (x.reused mem) (y.reused mem') := by
  obtain ⟨bufs, hy, hfill⟩ := h.wr.exists_bufs
  refine ⟨⟨?_, fun b hb => ?_⟩, h.allocated⟩
  · unfold Tx.reused
    rw [hy]
    rfl
  · rw [reused_offset, reused_offset]
    exact h.wr.filled b hb

/-! ## What goes out -/

/-- The bytes `bs` go out for the packet `a`, with a pad byte of `C`. -/
def GoesOut (C : Set UInt8) (a : Incoming) (bs : List UInt8) : Prop :=
  ∃ m, Shows m a ∧ m.word 10 = 0 ∧ a.size ≤ bufferSize ∧
    (a.data.length % 2 = 1 → m (sizeofPacket + a.data.length) ∈ C) ∧ sentBytes m a = some bs

theorem GoesOut.length (h : GoesOut C a bs) : bs.length = a.size := by
  obtain ⟨m, -, -, -, -, hbs⟩ := h
  exact length_sentBytes hbs

/-- Packets of even length always go out alike. -/
theorem GoesOut.unique (h : GoesOut C a bs) (h' : GoesOut D a bs') (heven : a.data.length % 2 = 0) : bs = bs' := by
  obtain ⟨m, hm, h₁₀, hsize, -, hbs⟩ := h
  obtain ⟨m', hm', h₁₀', -, -, hbs'⟩ := h'
  have hsame : sentBytes m a = sentBytes m' a :=
    sentBytes_eq hsize hm hm' (h₁₀.trans h₁₀'.symm) fun hodd => absurd heven (by omega)
  rw [hbs, hbs'] at hsame
  exact Option.some.inj hsame

/-- Packets of odd length do not go out alike if their pad bytes differ. -/
theorem GoesOut.even (h : GoesOut C a bs) (h' : GoesOut D a bs) (hCD : ∀ c ∈ C, c ∉ D) : a.data.length % 2 = 0 := by
  by_contra hne
  have hodd : a.data.length % 2 = 1 := by omega
  obtain ⟨m, -, -, -, hC, hbs⟩ := h
  obtain ⟨m', -, -, -, hD, hbs'⟩ := h'
  have hpad := sentBytes_pad hbs hodd
  rw [sentBytes_pad hbs' hodd, Option.some.injEq] at hpad
  exact hCD _ (hC hodd) (hpad ▸ hD hodd)

section Wires

variable (hf : ys.map Prod.fst = zs.map Prod.fst) (hy : ∀ y ∈ ys, GoesOut C y.1 y.2) (hz : ∀ z ∈ zs, GoesOut D z.1 z.2)
include hf hy hz

theorem wires_eq (heven : ∀ y ∈ ys, y.1.data.length % 2 = 0) : ys.flatMap Prod.snd = zs.flatMap Prod.snd := by
  induction ys generalizing zs with
  | nil =>
    cases zs with
    | nil => rfl
    | cons z zs => cases hf
  | cons y ys ih =>
    cases zs with
    | nil => cases hf
    | cons z zs =>
      rw [List.map_cons, List.map_cons, List.cons.injEq] at hf
      obtain ⟨hy, hys⟩ := List.forall_mem_cons.1 hy
      obtain ⟨hz, hzs⟩ := List.forall_mem_cons.1 hz
      obtain ⟨he, hes⟩ := List.forall_mem_cons.1 heven
      rw [← hf.1] at hz
      rw [List.flatMap_cons, List.flatMap_cons, hy.unique hz he, ih hf.2 hys hzs hes]

theorem even_of_wires (hCD : ∀ c ∈ C, c ∉ D) (hw : ys.flatMap Prod.snd = zs.flatMap Prod.snd) :
    ∀ y ∈ ys, y.1.data.length % 2 = 0 := by
  induction ys generalizing zs with
  | nil => exact fun y hy => by cases hy
  | cons y ys ih =>
    cases zs with
    | nil => cases hf
    | cons z zs =>
      rw [List.map_cons, List.map_cons, List.cons.injEq] at hf
      obtain ⟨hy, hys⟩ := List.forall_mem_cons.1 hy
      obtain ⟨hz, hzs⟩ := List.forall_mem_cons.1 hz
      rw [← hf.1] at hz
      obtain ⟨hbs, hws⟩ := List.append_inj hw (hy.length.trans hz.length.symm)
      rw [← hbs] at hz
      exact List.forall_mem_cons.2 ⟨hy.even hz hCD, ih hf.2 hys hzs hws⟩

end Wires

/-! ## Steps -/

/-- The invariant, with the packets that went out and their bytes: pad bytes are of `C`. -/
structure Padded (C : Set UInt8) (x : Tx) (S U : List Listed) (ys : List (Incoming × List UInt8)) : Prop
    extends x.Inv S U where
  wired : x.wire = ys.flatMap Prod.snd
  sorted : x.allocated = ys.map Prod.fst ++ U.map Prod.snd
  goes : ∀ y ∈ ys, GoesOut C y.1 y.2
  pads : x.wr.Pads C U
  behind : x.wr.Behind C

theorem start_padded (C : Set UInt8) (obs : ObPtr → OutBuffer) (bufs : BufPtr → Buffer) :
    (start obs bufs).Padded C [] [] [] :=
  ⟨start_inv obs bufs, rfl, rfl, fun _ h => (by cases h), fun _ h => (by cases h), fun _ h => (by cases h)⟩

theorem Padded.reused (h : x.Padded C S U ys) (mem : BufPtr → Mem) : (x.reused mem).Padded C S U ys := by
  refine ⟨h.toInv.reused mem, h.wired, h.sorted, h.goes, h.pads.congr fun z hz _ => ?_, fun b hb k hk => ?_⟩
  · rw [reused_bufs mem (h.toValid.unsent_inside z hz).1]
  · have hsame : (x.reused mem).wr.bufs b = x.wr.bufs b := if_pos hb
    rw [hsame] at hk ⊢
    exact h.behind b hb k hk

/-- No packet of odd length is handed to `REM_Write`: the unsent packets of the head buffer have even lengths. -/
def EvenStep (x : Tx) : Event → Prop
  | .write => ∀ op ∈ x.wr.recents, x.wr.queue.head? = some op.outBuf → op.sent = false →
      (x.wr.header op.pac).length.toNat % 2 = 0
  | _ => True

theorem step_alloc_padded {al : Alloc} {packId : Option UInt16} {length : Nat} {type : UInt8} {connId : UInt16}
    {payload : Mem} (h : x.Padded C S U ys) (hf : x.wr.Unused C)
    (hx : step x (.alloc al packId length type connId payload) = some x') : ∃ S' U', x'.Padded C S' U' ys := by
  obtain ⟨x₁, hstep, -, -, -, hcase⟩ := step_alloc_handed h.toInv al packId length type connId payload
  rw [hx, Option.some.injEq] at hstep
  subst hstep
  obtain ⟨⟨w, r⟩, hw, rfl⟩ := Option.map_eq_some_iff.1 hx
  have hhand : handedBy x (.alloc al packId length type connId payload) =
      r.toList.map fun p => ⟨p, length, (asked x.wr packId).2, packId.isNone⟩ := by
    unfold handedBy
    dsimp only
    rw [hw]
    rfl
  rw [hhand] at hcase
  rw [allocate_eq] at hw
  have v := valid_asked packId h.toValid
  have hb : (asked x.wr packId).1.Behind C := by cases packId <;> exact h.behind
  have hu : (asked x.wr packId).1.Unused C := by cases packId <;> exact hf
  have hp : (asked x.wr packId).1.Pads C U := by cases packId <;> exact h.pads
  cases r with
  | none =>
    rcases hcase with ⟨-, hv, -⟩ | ⟨_, _, _, _, hnew, -⟩
    case inr => cases hnew
    have hsame : w.Pads C U ∧ w.Behind C := by
      rcases alloc_failed hw with rfl | rfl
      · exact ⟨hp, hb⟩
      · exact ⟨hp.congr fun z _ _ => by rw [(currentBuffer_contents ..).1], hb.currentBuffer hu al length⟩
    exact ⟨S, U, hv, h.wired, h.sorted, h.goes, hsame.1, hsame.2⟩
  | some p =>
    rcases hcase with ⟨hnone, -⟩ | ⟨ob, p', k, y, hnew, hy, -, -, -, -, hv, hall, -⟩
    case inl => cases hnone
    cases hnew
    obtain ⟨hb', hp', hpad⟩ := @alloc_padded _ _ _ _ _ _ _ _ _ type connId
      (payload.slice 0 (length - sizeofPacket)) hw v hb hu hp (Mem.length_slice ..)
    have hnew := List.singleton_inj.1 (List.append_cancel_left hall)
    refine ⟨S.drop k, U ++ [y], hv, h.wired, ?_, h.goes, ?_, hb'⟩
    · rw [hall, h.sorted, List.map_append, List.append_assoc]
      rfl
    · refine List.forall_mem_append.2 ⟨hp', fun z hz _ => ?_⟩
      rw [List.mem_singleton.1 hz, hy, ← hnew]
      exact hpad

/-- What a write sends are the first packets that are not sent. -/
theorem evenStep_write_iff {V W : List Listed} (v : x.wr.Valid S (V ++ W))
    (hhead : ∀ z ∈ V, x.wr.queue.head? = some z.1.outBuf) (htail : ∀ z ∈ W, z.1.outBuf ∈ x.wr.queue.tail) :
    EvenStep x .write ↔ ∀ z ∈ V, z.2.data.length % 2 = 0 := by
  have hlen : ∀ z ∈ V ++ W, (x.wr.header z.1.pac).length.toNat = z.2.data.length := fun z hz =>
    (v.pending.shows z hz).length
  constructor
  · intro he z hz
    have hmem : z ∈ V ++ W := List.mem_append_left _ hz
    rw [← hlen z hmem]
    refine he z.1 ?_ (hhead z hz) (v.pending.owner z hmem).2
    rw [v.recents]
    exact List.mem_map_of_mem (List.mem_append_right _ hmem)
  · intro he op hop hob hns
    obtain ⟨z, hz, rfl⟩ := v.unsent hop hns
    rw [hlen z hz]
    rcases List.mem_append.1 hz with hz | hz
    · exact he z hz
    · exact absurd (htail z hz) (v.pools.ne_head hob)

/-- Packets that are not sent yet go out as the invariant says. -/
theorem Padded.goesOut (h : x.Padded C S U ys) {V : List Listed} (hV : ∀ z ∈ V, z ∈ U) {qs : List WirePacket}
    (hqs : qs.map WirePacket.incoming = V.map Prod.snd)
    (hsent : (qs.map fun q => some q.bytes) = V.map fun z => sentBytes (x.wr.mem z.1.pac) z.2) :
    ∀ q ∈ qs, GoesOut C q.incoming q.bytes := by
  intro q hq
  have hzip : (q.incoming, some q.bytes) ∈ (V.map Prod.snd).zip (V.map fun z => sentBytes (x.wr.mem z.1.pac) z.2) := by
    rw [← hqs, ← hsent, List.zip_map']
    exact List.mem_map.2 ⟨q, hq, rfl⟩
  rw [List.zip_map'] at hzip
  obtain ⟨z, hz, he⟩ := List.mem_map.1 hzip
  rw [Prod.mk.injEq] at he
  obtain ⟨-, -, hsize⟩ := h.toValid.unsent_inside z (hV z hz)
  rw [← he.1]
  exact ⟨x.wr.mem z.1.pac, h.pending.shows z (hV z hz), h.pending.word10 z (hV z hz), hsize, h.pads z (hV z hz), he.2⟩

theorem step_write_padded (h : x.Padded C S U ys) (hx : step x .write = some x') : ∃ S' U' zs,
    x'.Padded C S' U' (ys ++ zs) ∧ (EvenStep x .write ↔ ∀ z ∈ zs, z.1.data.length % 2 = 0) := by
  obtain ⟨U₁, U₂, w, r, rfl, hwrite, hv, -, ⟨qs, hqs, hbytes, hsent⟩, -, huse, -, hhead, htail⟩ :=
    writeBuffer_valid h.toValid
  obtain ⟨ps, hwire, hall⟩ := h.wire
  unfold step at hx
  dsimp only at hx
  rw [hwrite, Option.map_some, Option.some.injEq] at hx
  subst hx
  let zs : List (Incoming × List UInt8) := qs.map fun q => (q.incoming, q.bytes)
  have hfst : zs.map Prod.fst = U₁.map Prod.snd := by rw [← hqs, List.map_map]; rfl
  have hsnd : zs.flatMap Prod.snd = qs.flatMap WirePacket.bytes := List.flatMap_map ..
  obtain ⟨hb', hp'⟩ := write_padded hwrite h.toValid h.behind h.pads (fun z hz => List.mem_append_right U₁ hz) htail
    huse.bufUse
  refine ⟨_, U₂, zs, ⟨⟨hv, ps ++ qs, ?_, ?_⟩, ?_, ?_, ?_, hp', hb'⟩, ?_⟩
  · dsimp only
    rw [hwire, hbytes, List.flatMap_append]
  · dsimp only
    rw [hall, List.map_append, List.map_append, hqs, List.append_assoc]
  · dsimp only
    rw [h.wired, hbytes, List.flatMap_append, hsnd]
  · dsimp only
    rw [h.sorted, List.map_append, List.map_append, hfst, List.append_assoc]
  · refine List.forall_mem_append.2 ⟨h.goes, List.forall_mem_map.2 ?_⟩
    exact h.goesOut (fun z hz => List.mem_append_left U₂ hz) hqs hsent
  · rw [evenStep_write_iff h.toValid hhead htail, ← @List.forall_mem_map _ _ Prod.snd U₁ fun a => a.data.length % 2 = 0,
      ← hfst, List.forall_mem_map]

/-- **Every step** sends packets that are padded with what the buffers held, of even length if it is an `EvenStep`. -/
theorem step_padded (h : x.Padded C S U ys) (hf : x.wr.Unused C) (hx : step x e = some x') : ∃ S' U' zs,
    x'.Padded C S' U' (ys ++ zs) ∧ (EvenStep x e ↔ ∀ z ∈ zs, z.1.data.length % 2 = 0) := by
  have hnil : EvenStep x e = True → (EvenStep x e ↔ ∀ z ∈ ([] : List (Incoming × List UInt8)), z.1.data.length % 2 = 0) :=
    fun he => by simp [he]
  cases e with
  | alloc al packId length type connId payload =>
    obtain ⟨S', U', h'⟩ := step_alloc_padded h hf hx
    exact ⟨S', U', [], by rwa [List.append_nil], hnil rfl⟩
  | write => exact step_write_padded h hx
  | complete =>
    cases hx
    refine ⟨S, U, [], ?_, hnil rfl⟩
    rw [List.append_nil]
    exact ⟨⟨h.toValid, h.wire⟩, h.wired, h.sorted, h.goes, h.pads, h.behind⟩
  | resend al packId =>
    unfold step at hx
    dsimp only at hx
    rw [resendPacket_eq h.toValid] at hx
    cases hx
    exact ⟨S, U, [], by rwa [List.append_nil], hnil rfl⟩

/-! ## Runs -/

/-- An event on its own, whatever the unused buffers hold. -/
def EvenStepOn (x : Tx) (me : (BufPtr → Mem) × Event) : Prop := EvenStep (x.reused me.1) me.2

theorem runs_padded {mes : List ((BufPtr → Mem) × Event)} (h : x.Padded C S U ys)
    (hC : ∀ me ∈ mes, ∀ b k, me.1 b k ∈ C) (hx : runs stepOn x mes = some x') : ∃ S' U' zs,
      x'.Padded C S' U' (ys ++ zs) ∧ (Along EvenStepOn stepOn x mes ↔ ∀ z ∈ zs, z.1.data.length % 2 = 0) := by
  induction mes generalizing x S U ys with
  | nil =>
    cases hx
    exact ⟨S, U, [], by rwa [List.append_nil], iff_of_true trivial fun z hz => by cases hz⟩
  | cons me mes ih =>
    obtain ⟨hme, hmes⟩ := List.forall_mem_cons.1 hC
    obtain ⟨x₁, hs, hrest⟩ := runs_cons_some hx
    obtain ⟨S₁, U₁, zs₁, h₁, heven₁⟩ := step_padded (h.reused me.1) (reused_unused x hme) hs
    obtain ⟨S₂, U₂, zs₂, h₂, heven₂⟩ := ih h₁ hmes hrest
    refine ⟨S₂, U₂, zs₁ ++ zs₂, by rwa [← List.append_assoc], ?_⟩
    rw [along_cons hs, heven₂, List.forall_mem_append]
    exact and_congr_left fun _ => heven₁

/-- Runs of the same events, whatever the unused buffers hold. -/
theorem runs_alike {mes mes' : List ((BufPtr → Mem) × Event)} (h : Alike x y) (v : x.Inv S U) (v' : y.Inv S' U')
    (hes : mes.map Prod.snd = mes'.map Prod.snd) (hal : ∀ me ∈ mes, me.2.Blind) (hx : runs stepOn x mes = some x')
    (hy : runs stepOn y mes' = some y') : Alike x' y' := by
  induction mes generalizing x y mes' S U S' U' with
  | nil =>
    cases mes' with
    | nil =>
      cases hx
      cases hy
      exact h
    | cons me' mes' => cases hes
  | cons me mes ih =>
    cases mes' with
    | nil => cases hes
    | cons me' mes' =>
      rw [List.map_cons, List.map_cons, List.cons.injEq] at hes
      obtain ⟨hme, hmes⟩ := List.forall_mem_cons.1 hal
      obtain ⟨x₁, hsx, hx⟩ := runs_cons_some hx
      obtain ⟨y₁, hsy, hy⟩ := runs_cons_some hy
      unfold stepOn at hsx hsy
      rw [← hes.1] at hsy
      have h₁ := step_alike (h.reused me.1 me'.1) (v.reused me.1) (v'.reused me'.1) hme hsx hsy
      obtain ⟨_, hx₁, S₁, U₁, v₁⟩ := step_inv (v.reused me.1) me.2
      obtain ⟨_, hy₁, S₁', U₁', v₁'⟩ := step_inv (v'.reused me'.1) me.2
      cases hx₁.symm.trans hsx
      cases hy₁.symm.trans hsy
      exact ih h₁ v₁ v₁' hes.2 hmes hx hy

theorem runs_stepOn (obs : ObPtr → OutBuffer) (bufs : BufPtr → Buffer) (mes : List ((BufPtr → Mem) × Event)) :
    ∃ x, runs stepOn (start obs bufs) mes = some x := by
  obtain ⟨x, hx, -⟩ := runs_total (fun x : Tx => ∃ S U, x.Inv S U)
    (fun _ me ⟨_, _, v⟩ => step_inv (v.reused me.1) me.2) mes ⟨[], [], start_inv obs bufs⟩
  exact ⟨x, hx⟩

/-- Alike writers have sent the same packets. -/
theorem Alike.sent (h : Alike x y) (hx : x.Padded C S U ys) (hy : y.Padded D S' U' zs) :
    ys.map Prod.fst = zs.map Prod.fst := by
  have hrec : y.wr.recents = x.wr.recents := by
    rw [h.wr.eq]
    rfl
  have hlen : (U.map Prod.snd).length = (U'.map Prod.snd).length := by
    rw [List.length_map, List.length_map, ← hx.toValid.length_unsent, ← hy.toValid.length_unsent, hrec]
  have hall := h.allocated
  rw [hx.sorted, hy.sorted] at hall
  exact (List.append_inj' hall hlen.symm).1.symm

/-- **Runs of the same events send the same packets**, from a writer at its start. -/
theorem runs_sent {obs : ObPtr → OutBuffer} {bufs bufs' : BufPtr → Buffer} {mes mes' : List ((BufPtr → Mem) × Event)}
    (hes : mes.map Prod.snd = mes'.map Prod.snd) (hal : ∀ me ∈ mes, me.2.Blind)
    (hx : runs stepOn (start obs bufs) mes = some x) (hy : runs stepOn (start obs bufs') mes' = some y)
    (h : x.Padded C S U ys) (h' : y.Padded D S' U' zs) : ys.map Prod.fst = zs.map Prod.fst := by
  have hstart : Alike (start obs bufs) (start obs bufs') := ⟨⟨rfl, fun b hb => by cases hb⟩, rfl⟩
  exact (runs_alike hstart (start_inv obs bufs) (start_inv obs bufs') hes hal hx hy).sent h h'

/-- The same events again, while the unused buffers hold `c`. -/
theorem runs_const (obs : ObPtr → OutBuffer) (bufs : BufPtr → Buffer) (es : List Event) (c : UInt8) :
    ∃ (mes : List ((BufPtr → Mem) × Event)) (x : Tx) (S U : List Listed) (ys : List (Incoming × List UInt8)),
      mes.map Prod.snd = es ∧ runs stepOn (start obs bufs) mes = some x ∧ x.Padded {c} S U ys := by
  let mes : List ((BufPtr → Mem) × Event) := es.map fun e => (fun _ _ => c, e)
  obtain ⟨x, hx⟩ := runs_stepOn obs bufs mes
  obtain ⟨S, U, ys, h, -⟩ := runs_padded (start_padded {c} obs bufs) (fun me hme b k => by
    obtain ⟨e, -, rfl⟩ := List.mem_map.1 hme
    rfl) hx
  refine ⟨mes, x, S, U, ys, ?_, hx, h⟩
  rw [List.map_map]
  exact List.map_id es

/-- **What is sent does not depend on what the buffers held**, at the start or later: runs of the same events put the
same bytes on the wire. -/
def Determined (obs : ObPtr → OutBuffer) (es : List Event) : Prop :=
  ∀ (bufs bufs' : BufPtr → Buffer) (mes mes' : List ((BufPtr → Mem) × Event)) (x x' : Tx), mes.map Prod.snd = es →
    mes'.map Prod.snd = es → runs stepOn (start obs bufs) mes = some x → runs stepOn (start obs bufs') mes' = some x' →
      x.wire = x'.wire

/-- **The wire is determined exactly if no packet of odd length is handed to `REM_Write`.** -/
theorem wire_determined_iff (obs : ObPtr → OutBuffer) (es : List Event) (hes : ∀ e ∈ es, e.Blind) : Determined obs es ↔
    ∀ bufs mes, mes.map Prod.snd = es → Along EvenStepOn stepOn (start obs bufs) mes := by
  have hblind : ∀ mes : List ((BufPtr → Mem) × Event), mes.map Prod.snd = es → ∀ me ∈ mes, me.2.Blind :=
    fun mes hm me hme => hes me.2 (hm ▸ List.mem_map_of_mem hme)
  constructor
  · intro hdet bufs mes hm
    obtain ⟨x, hx⟩ := runs_stepOn obs bufs mes
    obtain ⟨S, U, ys, h, heven⟩ := runs_padded (start_padded Set.univ obs bufs) (fun _ _ _ _ => Set.mem_univ _) hx
    -- the same packets are padded with 0 in one run, and with 1 in another
    obtain ⟨mes₀, x₀, S₀, U₀, ys₀, hm₀, hx₀, h₀⟩ := runs_const obs bufs es 0
    obtain ⟨mes₁, x₁, S₁, U₁, ys₁, hm₁, hx₁, h₁⟩ := runs_const obs bufs es 1
    have hwire := hdet bufs bufs mes₀ mes₁ x₀ x₁ hm₀ hm₁ hx₀ hx₁
    rw [h₀.wired, h₁.wired] at hwire
    have hsame := runs_sent (hm₀.trans hm₁.symm) (hblind mes₀ hm₀) hx₀ hx₁ h₀ h₁
    have hall := even_of_wires hsame h₀.goes h₁.goes (by simp) hwire
    have hfst := runs_sent (hm.trans hm₀.symm) (hblind mes hm) hx hx₀ h h₀
    rw [List.nil_append] at hfst
    rw [heven, ← @List.forall_mem_map _ _ Prod.fst ys fun a => a.data.length % 2 = 0, hfst, List.forall_mem_map]
    exact hall
  · intro heven bufs bufs' mes mes' x x' hm hm' hx hx'
    obtain ⟨S, U, ys, h, hys⟩ := runs_padded (start_padded Set.univ obs bufs) (fun _ _ _ _ => Set.mem_univ _) hx
    obtain ⟨S', U', zs, h', -⟩ := runs_padded (start_padded Set.univ obs bufs') (fun _ _ _ _ => Set.mem_univ _) hx'
    have hfst := runs_sent (hm.trans hm'.symm) (hblind mes hm) hx hx' h h'
    rw [h.wired, h'.wired]
    exact wires_eq hfst h.goes h'.goes (hys.1 (heven bufs mes hm))

/-- A packet that is asked for has an even length. -/
def Event.EvenLength : Event → Prop
  | .alloc _ _ length .. => length % 2 = 0
  | _ => True

theorem step_evenLength (h : ∀ a ∈ x.allocated, a.data.length % 2 = 0) (he : e.EvenLength) (hx : step x e = some x') :
    ∀ a ∈ x'.allocated, a.data.length % 2 = 0 := by
  cases e with
  | alloc al packId length type connId payload =>
    obtain ⟨⟨w, r⟩, -, rfl⟩ := Option.map_eq_some_iff.1 hx
    cases r with
    | none => exact h
    | some p =>
      refine List.forall_mem_append.2 ⟨h, fun a ha => ?_⟩
      have hlen : length % 2 = 0 := he
      rw [List.mem_singleton.1 ha]
      simp only [filled, Mem.length_slice, sizeofPacket]
      omega
  | write =>
    obtain ⟨r, -, rfl⟩ := Option.map_eq_some_iff.1 hx
    exact h
  | complete =>
    cases hx
    exact h
  | resend al packId =>
    obtain ⟨w, -, rfl⟩ := Option.map_eq_some_iff.1 hx
    exact h

/-- Who asks for packets of even length alone never sends one of odd length. -/
theorem along_evenStep {obs : ObPtr → OutBuffer} (h : ∀ e ∈ es, e.EvenLength) (bufs : BufPtr → Buffer)
    (mes : List ((BufPtr → Mem) × Event)) (hm : mes.map Prod.snd = es) :
    Along EvenStepOn stepOn (start obs bufs) mes := by
  obtain ⟨x, hx⟩ := runs_stepOn obs bufs mes
  obtain ⟨S, U, ys, hp, heven⟩ := runs_padded (start_padded Set.univ obs bufs) (fun _ _ _ _ => Set.mem_univ _) hx
  have hok : Along (fun _ me => me.2.EvenLength) stepOn (start obs bufs) mes :=
    along_of_mem (fun me hme _ => h me.2 (hm ▸ List.mem_map_of_mem hme)) _
  have hall : ∀ a ∈ x.allocated, a.data.length % 2 = 0 := by
    refine runs_inv (fun x : Tx => ∀ a ∈ x.allocated, a.data.length % 2 = 0) ?_ ?_ hok hx
    · intro y me y' hy hme hs
      exact step_evenLength (x := y.reused me.1) hy hme hs
    · exact fun a ha => by cases ha
  rw [heven]
  intro y hy
  refine hall y.1 ?_
  rw [hp.sorted]
  exact List.mem_append_left _ (List.mem_map_of_mem hy)

/-- Packets of even length, in one buffer. -/
theorem wire_determined_even : Determined (fun _ => default) [ask 16, .write, ask 14, ask 20, .write] := by
  refine (wire_determined_iff _ _ fun e he => ?_).2 (along_evenStep fun e he => ?_)
  · simp only [List.mem_cons, List.not_mem_nil, or_false] at he
    rcases he with rfl | rfl | rfl | rfl | rfl
    · exact Alloc.unbounded_blind
    · trivial
    · exact Alloc.unbounded_blind
    · exact Alloc.unbounded_blind
    · trivial
  · simp only [List.mem_cons, List.not_mem_nil, or_false] at he
    rcases he with rfl | rfl | rfl | rfl | rfl
    · exact rfl
    · trivial
    · exact rfl
    · exact rfl
    · trivial

/-- **The pad byte is stale**: what the buffers hold at the start goes out with a packet of one byte. -/
theorem stale_pad_byte :
    (¬∀ (bufs bufs' : BufPtr → Buffer) (x x' : Tx), runs step (start (fun _ => default) bufs) [ask 15, .write] = some x →
      runs step (start (fun _ => default) bufs') [ask 15, .write] = some x' → x.wire = x'.wire) ∧
    ∃ (bufs : BufPtr → Buffer) (x : Tx), runs step (start (fun _ => default) bufs) [ask 15, .write] = some x ∧
      x.wire[15]? = some 1 := by
  have hpad : ∀ c : UInt8, c = 0 ∨ c = 1 → ∃ x, runs step (start (fun _ => default) fun _ => ⟨0, fun _ => c⟩)
      [ask 15, .write] = some x ∧ x.wire[15]? = some c := by
    rintro c (rfl | rfl)
    · exact Option.map_eq_some_iff.1 (by decide +kernel : (runs step _ [ask 15, .write]).map (fun x => x.wire[15]?) = _)
    · exact Option.map_eq_some_iff.1 (by decide +kernel : (runs step _ [ask 15, .write]).map (fun x => x.wire[15]?) = _)
  obtain ⟨x, hx, h₀⟩ := hpad 0 (.inl rfl)
  obtain ⟨x', hx', h₁⟩ := hpad 1 (.inr rfl)
  refine ⟨fun h => ?_, _, x', hx', h₁⟩
  rw [h _ _ x x' hx hx', h₁] at h₀
  cases h₀

end Tx

end AmiPiBorg
