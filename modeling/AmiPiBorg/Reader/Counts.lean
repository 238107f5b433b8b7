import AmiPiBorg.Reader.Links

/-!
# Counting the packets of a buffer

`tally U a` is the number of packets of `U` that were counted into the buffer `a`. The parser counts every packet into
the one or two buffers that it lies in, and the counts stay below `65536` because the parser leaves a buffer after at
most one packet that does not end in it. `APB_ReleaseInPacket` counts out of the packet's first buffer and of the next
one. As long as that next buffer is one that the packet was counted into, and no buffer is freed before the parser, the
counts are exact and no buffer is freed under a packet (`counts_exact`).
-/

set_option autoImplicit false

namespace AmiPiBorg

open ProgLib

/-- The packet was counted into the buffer, as `ib1` or as `ib2`. -/
def InPacket.CountedIn (ip : InPacket) (a : IbPtr) : Prop := ip.inBuf = a ∨ ip.inBuf2 = some a

instance (ip : InPacket) (a : IbPtr) : Decidable (ip.CountedIn a) := inferInstanceAs (Decidable (_ ∨ _))

/-- The number of packets that were counted into the buffer. -/
def tally (U : List InPacket) (a : IbPtr) : Nat := U.countP fun ip => ip.CountedIn a

theorem tally_concat (U : List InPacket) (ip : InPacket) :
    tally (U ++ [ip]) = fun a => tally U a + if ip.CountedIn a then 1 else 0 := by
  funext a
  simp only [tally, List.countP_append, List.countP_cons, List.countP_nil, Nat.zero_add, decide_eq_true_eq]

theorem tally_pos_iff {U : List InPacket} {a : IbPtr} : 0 < tally U a ↔ ∃ ip ∈ U, ip.CountedIn a := by
  simp only [tally, List.countP_pos_iff, decide_eq_true_eq]

/-- Without the packet at `i`. -/
theorem tally_eraseIdx {held queue : List InPacket} {i : Nat} {ip : InPacket} (h : held[i]? = some ip) (a : IbPtr) :
    tally (held ++ queue) a = tally (held.eraseIdx i ++ queue) a + if ip.CountedIn a then 1 else 0 := by
  obtain ⟨hi, rfl⟩ := List.getElem?_eq_some_iff.1 h
  have hp := (List.getElem_cons_eraseIdx_perm hi).countP_eq fun ip : InPacket => decide (ip.CountedIn a)
  simp only [List.countP_cons, decide_eq_true_eq] at hp
  simp only [tally, List.countP_append, ← hp]
  omega

namespace Reader

/-- What the reader keeps true of its counts `T`, with the buffers `L` before the parser and the read buffer `rb`. -/
structure Kept (T : IbPtr → Nat) (rb : Option BufPtr) (s : Reader) (L : List IbPtr) : Prop where
  linked : s.Linked L
  inBuf : s.At L s.inBuf
  inBuf_isSome : L ≠ [] → s.inBuf ≠ none
  /-- The counts of the buffers in use. -/
  exact : ∀ a ∈ s.ibUse, (s.ibs a).packetCount = T a
  live : ∀ a, 0 < T a → a ∈ s.ibUse
  nodup : s.ibUse.Nodup
  le : ∀ a, T a ≤ 8194
  /-- Every `InBuffer` in use has a `Buffer` in use of its own. -/
  buf : ∀ a ∈ s.ibUse, (s.ibs a).buf ∈ s.bufUse
  inj : ∀ a ∈ s.ibUse, ∀ c ∈ s.ibUse, (s.ibs a).buf = (s.ibs c).buf → a = c
  /-- A packet that is counted in a buffer before the parser has moved its offset. -/
  count_le : ∀ a ∈ L, T a ≤ (s.ibs a).offset
  offset_le : ∀ a ∈ L, (s.ibs a).offset ≤ 8193
  tail_le : ∀ a ∈ L.tail, (s.ibs a).offset ≤ 4097
  last : ∀ a, L.getLast? = some a → (s.ibs a).canRelease = false
  /-- The read buffer is not freed, and only the last buffer of the chain can be it. -/
  read : ∀ b, rb = some b → b ∈ s.bufUse ∧ ∀ a ∈ s.ibUse, (s.ibs a).buf = b → L.getLast? = some a

/-- The packet was counted into a buffer and perhaps into the next, and its data is in these. -/
structure Placed (s : Reader) (ip : InPacket) : Prop where
  next : ∀ c, ip.inBuf2 = some c → s.next ip.inBuf = some c
  ne : ip.inBuf2 ≠ some ip.inBuf
  data : ∀ b off, ip.data1 = some (b, off) ∨ ip.data2 = some (b, off) → ∃ a, ip.CountedIn a ∧ (s.ibs a).buf = b

variable {s s' : Reader} {al : Alloc} {T : IbPtr → Nat} {rb : Option BufPtr} {L l : List IbPtr} {a b c ib1 : IbPtr}
  {p : Option IbPtr} {h : Header} {d : Located} {ip : InPacket} {held : List InPacket}

theorem Placed.congr (hp : s.Placed ip) (hn : s'.next ip.inBuf = s.next ip.inBuf)
    (hb : ∀ a, ip.CountedIn a → (s'.ibs a).buf = (s.ibs a).buf) : s'.Placed ip := by
  refine ⟨fun c hc => hn.trans (hp.next c hc), hp.ne, fun b off hd => ?_⟩
  obtain ⟨a, ha, rfl⟩ := hp.data b off hd
  exact ⟨a, ha, hb a ha⟩

theorem Placed.layout (hp : s.Placed ip) (hs : SameLayout s s') : s'.Placed ip :=
  hp.congr (hs.next _) fun a _ => hs.buf a

/-! ## The parser -/

theorem mem_tail_of_suffix (hl : l <:+ L) (ha : a ∈ l.tail) : a ∈ L.tail := by
  obtain ⟨t, rfl⟩ := hl
  cases t with
  | nil => exact ha
  | cons c t => exact List.mem_append_right t (List.mem_of_mem_tail ha)

theorem getLast?_of_suffix (hl : l <:+ L) (hne : l ≠ []) : l.getLast? = L.getLast? := by
  obtain ⟨t, rfl⟩ := hl
  exact (List.getLast?_append_of_ne_nil t hne).symm

/-- Giving up a header changes no count. -/
theorem Kept.skip (k : Kept T rb s L) (hb : s.At L (some b)) : Kept T rb (s.skip b) L := by
  have hs := skip_sameLayout s b
  obtain ⟨hl, hi⟩ := linked_skip k.linked hb k.inBuf
  have hoff := offset_skip (k.linked.bytes_le b hb.mem)
  simp only [bufferSize] at hoff
  refine ⟨hl, hi, fun hne => ?_, fun a ha => ?_, fun a ha => ?_, ?_, k.le, fun a ha => ?_, fun a ha c hc => ?_,
    fun a ha => ?_, fun a ha => ?_, fun a ha => ?_, fun a ha => ?_, fun c hc => ?_⟩
  · rcases skip_inBuf s b with h | ⟨h, h', -⟩
    · rw [h]
      exact k.inBuf_isSome hne
    · rw [h]
      exact Option.isSome_iff_ne_none.1 h'
  · rw [skip_packetCount]
    exact k.exact a (hs.ibUse ▸ ha)
  · rw [hs.ibUse]
    exact k.live a ha
  · rw [hs.ibUse]
    exact k.nodup
  · rw [hs.ibUse] at ha
    rw [hs.buf, hs.bufUse]
    exact k.buf a ha
  · rw [hs.ibUse] at ha hc
    rw [hs.buf, hs.buf]
    exact k.inj a ha c hc
  · have := k.count_le a ha
    have := hoff a
    omega
  · have := k.offset_le a ha
    have := hoff a
    omega
  · have := k.tail_le a ha
    have := hoff a
    omega
  · rw [hs.canRelease]
    exact k.last a ha
  · rw [hs.bufUse, hs.ibUse]
    exact ⟨(k.read c hc).1, fun a ha he => (k.read c hc).2 a ha (by rwa [hs.buf] at he)⟩

/-- The buffer that an accepted packet ends in, and the rest of the chain behind it. -/
theorem Accepted.ends (acc : s.Accepted al c h d) (hc : s.At L (some c)) : ∃ r, d.ib2.getD c :: r <:+ L ∧
    Chain s.next (s.next (d.ib2.getD c)) r ∧ c ∉ r ∧ d.ib2.getD c ∉ r ∧
      (d.ib2 = none ∨ d.ib2.getD c ≠ c ∧ d.ib2 = some (d.ib2.getD c) ∧ d.ib2.getD c ∈ L.tail) := by
  obtain ⟨r, hr, hcr⟩ := hc.cons
  have hnd := (show Chain s.next (some c) (c :: r) from ⟨rfl, hcr⟩).nodup
  obtain ⟨hd, -⟩ | ⟨h₁, h₂, -⟩ := acc.found.looked
  · rw [hd]
    exact ⟨r, hr, hcr, (List.nodup_cons.1 hnd).1, (List.nodup_cons.1 hnd).1, .inl rfl⟩
  · obtain ⟨e, he⟩ := Option.isSome_iff_exists.1 h₁
    rw [h₂, he] at hcr
    obtain ⟨r', rfl, hr'⟩ := hcr.of_some
    simp only [List.nodup_cons, List.mem_cons, not_or] at hnd
    simp only [he, Option.getD_some]
    exact ⟨r', (List.suffix_cons c _).trans hr, hr', hnd.1.2, hnd.2.1, .inr ⟨Ne.symm hnd.1.1, trivial,
      mem_tail_of_suffix hr List.mem_cons_self⟩⟩

theorem placed_newPacket (acc : s.Accepted al c h d) (hc : s.At L (some c)) : s.Placed (newPacket c h d) := by
  have hf := acc.found
  have hrange : ∀ {data : Option Addr} {len : Nat}, s.Received c d.ib2 data len → ∀ b off, data = some (b, off) →
      ∃ a, (newPacket c h d).CountedIn a ∧ (s.ibs a).buf = b := by
    rintro data len (⟨rfl, -⟩ | ⟨ib, off', hib, rfl, -⟩) b off hb
    · cases hb
    · cases hb
      exact ⟨ib, hib.imp Eq.symm id, rfl⟩
  refine ⟨fun e he => ?_, hf.looked.ne hc, fun b off hb => hb.elim (hrange hf.data1 b off) (hrange hf.data2 b off)⟩
  obtain ⟨hd, -⟩ | ⟨-, h₂, -⟩ := hf.looked
  · cases hd.symm.trans he
  · exact h₂.trans he

/-- **Accepting a packet** counts it. The buffers before that in which it ends are left. -/
theorem Kept.accept (k : Kept T rb s L) (hc : s.At L (some c)) (acc : s.Accepted al c h d) :
    ∃ r, Kept (fun a => T a + if (newPacket c h d).CountedIn a then 1 else 0) rb (s.accept c h d).1
        (d.ib2.getD c :: r) ∧ (s.accept c h d).1.At (d.ib2.getD c :: r) (s.accept c h d).2 := by
  obtain ⟨r, hsuf, hr, hcr, her, hcase⟩ := acc.ends hc
  obtain ⟨hl, -, -⟩ := linked_accept k.linked hc acc
  have hs := accept_sameLayout s c h d
  have hf := acc.found
  have hcL := hc.mem
  have hbc := k.linked.bytes_le c hcL
  have hcle := acc.le
  have hib1 := accept_ib1 s c h d
  generalize he : d.ib2.getD c = e at *
  have heL : e ∈ L := hsuf.subset List.mem_cons_self
  have hbe := k.linked.bytes_le e heL
  have hcounted : ∀ a, (newPacket c h d).CountedIn a → a = c ∨ a = e ∧ d.ib2 = some a := fun a ha => by
    rcases ha with rfl | ha
    · exact .inl rfl
    · rcases hcase with hd | ⟨-, hd, -⟩
      · cases hd.symm.trans ha
      · exact .inr ⟨Option.some.inj (ha.symm.trans hd), ha⟩
  -- how far the offset of the last buffer moves
  have hmove : ∃ n, 0 < n ∧ (s.ibs e).offset + n ≤ 8193 ∧
      ((s.accept c h d).1.ibs e).offset = (s.ibs e).offset + n := by
    have hpos := hf.pos
    have hle : (s.ibs e).offset + (d.consumed + d.oddSize) ≤ 8193 := by
      simp only [bufferSize] at *
      rcases hcase with hd | ⟨-, hd, htail⟩
      · have := (hf.one hd).2
        rw [hd, Option.getD_none] at he
        subst he
        omega
      · have := hf.two e hd
        have := k.tail_le e htail
        omega
    refine ⟨d.consumed + d.oddSize, hpos, hle, ?_⟩
    rw [accept_offset, he, if_pos rfl]
    omega
  obtain ⟨n, hn, hle, hoff⟩ := hmove
  have hoff' : ∀ a ∈ r, ((s.accept c h d).1.ibs a).offset = (s.ibs a).offset := fun a ha => by
    rw [accept_offset, he, if_neg fun (hae : a = e) => her (hae ▸ ha)]
  have hrL : ∀ a ∈ r, a ∈ L := fun a ha => hsuf.subset (List.mem_cons_of_mem e ha)
  have hcount : ∀ a, a ∈ L → T a ≤ 8193 := fun a ha => (k.count_le a ha).trans (k.offset_le a ha)
  have hfalse : ∀ a ∈ r, ¬(newPacket c h d).CountedIn a := fun a ha hin => by
    rcases hcounted a hin with rfl | ⟨rfl, -⟩
    · exact hcr ha
    · exact her ha
  refine ⟨r, ⟨hl.suffix hsuf, ?_, fun _ => ?_, fun a ha => ?_, fun a ha => ?_, ?_, fun a => ?_, fun a ha => ?_,
    fun a ha b hb => ?_, fun a ha => ?_, fun a ha => ?_, fun a ha => ?_, fun a ha => ?_, fun b hb => ?_⟩, ?_⟩
  · rw [accept_inBuf, he]
    exact ⟨e :: r, List.suffix_refl _, rfl, hs.next_eq ▸ hr⟩
  · rw [accept_inBuf]
    exact nofun
  · rw [hs.ibUse] at ha
    rw [accept_packetCount s c h d (hf.looked.ne hc), k.exact a ha]
    have := k.le a
    have hin : (newPacket c h d).CountedIn a ↔ a = c ∨ d.ib2 = some a := or_congr_left eq_comm
    simp only [hin]
    split <;> omega
  · rw [hs.ibUse]
    by_cases hin : (newPacket c h d).CountedIn a
    · rcases hcounted a hin with rfl | ⟨rfl, -⟩
      · exact k.linked.live _ hcL
      · exact k.linked.live _ heL
    · rw [if_neg hin] at ha
      exact k.live a ha
  · rw [hs.ibUse]
    exact k.nodup
  · show T a + _ ≤ _
    by_cases hin : (newPacket c h d).CountedIn a
    · rw [if_pos hin]
      rcases hcounted a hin with rfl | ⟨rfl, -⟩
      · exact Nat.succ_le_succ (hcount _ hcL)
      · exact Nat.succ_le_succ (hcount _ heL)
    · rw [if_neg hin]
      exact k.le a
  · rw [hs.ibUse] at ha
    rw [hs.buf, hs.bufUse]
    exact k.buf a ha
  · rw [hs.ibUse] at ha hb
    rw [hs.buf, hs.buf]
    exact k.inj a ha b hb
  · show T a + _ ≤ _
    rcases List.mem_cons.1 ha with rfl | ha
    · have := k.count_le a heL
      rw [hoff]
      split <;> omega
    · rw [if_neg (hfalse a ha), hoff' a ha]
      exact k.count_le a (hrL a ha)
  · rcases List.mem_cons.1 ha with rfl | ha
    · rw [hoff]
      exact hle
    · rw [hoff' a ha]
      exact k.offset_le a (hrL a ha)
  · rw [hoff' a ha]
    exact k.tail_le a (mem_tail_of_suffix hsuf ha)
  · rw [hs.canRelease]
    exact k.last a (by rwa [← getLast?_of_suffix hsuf (List.cons_ne_nil e r)])
  · obtain ⟨h₁, h₂⟩ := k.read b hb
    rw [hs.bufUse, hs.ibUse]
    refine ⟨h₁, fun a ha hab => ?_⟩
    rw [getLast?_of_suffix hsuf (List.cons_ne_nil e r)]
    exact h₂ a ha (by rwa [hs.buf] at hab)
  · rw [hib1]
    split
    · exact ⟨r, List.suffix_cons e r, hs.next_eq ▸ hr⟩
    · exact ⟨e :: r, List.suffix_refl _, rfl, hs.next_eq ▸ hr⟩

/-- The buffers of the chain are buffers in use. -/
theorem Kept.owned (k : Kept T rb s L) : s.Owned L := by
  obtain ⟨p, hc⟩ := k.linked.chain
  refine ⟨k.linked.live, fun a ha => k.buf a (k.linked.live a ha), ?_⟩
  exact List.Nodup.map_on (fun a ha c hc => k.inj a (k.linked.live a ha) c (k.linked.live c hc)) hc.nodup

/-- The chain from `pr_InBuf`. -/
theorem Kept.front (k : Kept T rb s L) : ∃ l, Kept T rb s l ∧ Chain s.next s.inBuf l := by
  obtain ⟨l, hl, hc⟩ := k.inBuf
  have hlast : l.getLast? = L.getLast? := by
    by_cases hne : L = []
    · subst hne
      rw [List.suffix_nil.1 hl]
    · refine getLast?_of_suffix hl fun h => k.inBuf_isSome hne ?_
      rw [h] at hc
      exact hc
  have hsub := hl.subset
  refine ⟨l, { k with
    linked := k.linked.suffix hl
    inBuf := ⟨l, List.suffix_refl l, hc⟩
    inBuf_isSome := fun hne hn => ?_
    count_le := fun a ha => k.count_le a (hsub ha)
    offset_le := fun a ha => k.offset_le a (hsub ha)
    tail_le := fun a ha => k.tail_le a (mem_tail_of_suffix hl ha)
    last := hlast ▸ k.last
    read := hlast ▸ k.read }, hc⟩
  cases l with
  | nil => exact hne rfl
  | cons a l => cases hn.symm.trans hc.1

/-- The counts are those of the packets `held` and of the queue. -/
def Counted (held : List InPacket) (rb : Option BufPtr) (s : Reader) (L : List IbPtr) : Prop :=
  Kept (tally (held ++ s.queue)) rb s L ∧ ∀ ip ∈ held ++ s.queue, s.Placed ip

/-- **A turn** keeps the counts. -/
theorem counted_turn {t : Turn (Reader × Option IbPtr) Reader} (k : Counted held rb s L) (hp : s.At L p)
    (ht : turn al (s, p) = some t) :
    t = .done s ∨ ∃ u L', t = .again u ∧ Counted held rb u.1 L' ∧ u.1.At L' u.2 := by
  cases p with
  | none =>
    cases ht
    exact .inl rfl
  | some c =>
    obtain rfl | ⟨ib2, hg, rfl⟩ | ⟨h, d, acc, rfl⟩ := turn_cases ht
    · exact .inl rfl
    · have hb := hg.looked.at hp
      have hs := skip_sameLayout s (ib2.getD c)
      refine .inr ⟨_, L, badData_again (k.1.linked.bytes_le _ hb.mem), ⟨?_, ?_⟩, hb.congr hs⟩
      · rw [skip_queue]
        exact k.1.skip hb
      · rw [skip_queue]
        exact fun ip hip => (k.2 ip hip).layout hs
    · obtain ⟨r, k', hp'⟩ := k.1.accept hp acc
      refine .inr ⟨_, _, rfl, ⟨?_, ?_⟩, hp'⟩
      · rw [accept_queue, ← List.append_assoc]
        rwa [tally_concat]
      · intro ip hip
        rw [accept_queue, ← List.append_assoc, List.mem_append, List.mem_singleton] at hip
        rcases hip with hip | rfl
        · exact (k.2 ip hip).layout (accept_sameLayout s c h d)
        · exact (placed_newPacket acc hp).layout (accept_sameLayout s c h d)

theorem Counted.front (k : Counted held rb s L) : ∃ l, Counted held rb s l ∧ Chain s.next s.inBuf l := by
  obtain ⟨l, kl, hc⟩ := k.1.front
  exact ⟨l, ⟨kl, k.2⟩, hc⟩

/-- The loop keeps the counts. -/
theorem counted_loop {fuel : Nat} (k : Counted held rb s L) (hp : s.At L p)
    (hr : Loop.run (turn al) fuel (s, p) = some s') : ∃ l, Counted held rb s' l ∧ Chain s'.next s'.inBuf l := by
  refine Loop.run_inv (fun t => ∃ L, Counted held rb t.1 L ∧ t.1.At L t.2)
    (fun s' => ∃ l, Counted held rb s' l ∧ Chain s'.next s'.inBuf l) ?_ ?_ ⟨L, k, hp⟩ hr
  · rintro ⟨t, p⟩ u ⟨L, k, hp⟩ ht
    obtain hd | ⟨u', L', hu, k'⟩ := counted_turn k hp ht
    · cases hd
    · cases hu
      exact ⟨L', k'⟩
  · rintro ⟨t, p⟩ r ⟨L, k, hp⟩ ht
    obtain hd | ⟨u', L', hu, -⟩ := counted_turn k hp ht
    · cases hd
      exact k.front
    · cases hu

/-! ## Receiving -/

section Receive

variable {bs : List UInt8} {ib : IbPtr}

theorem Counted.fill (k : Counted held rb s L) (hc : Chain s.next s.inBuf L)
    (hfit : (s.bufs b).offset + bs.length ≤ bufferSize) : Counted held rb (s.fill b bs) L :=
  ⟨{ k.1 with
      linked := (Standing.fill ⟨k.1.linked, hc⟩ hfit).1
      inBuf := k.1.inBuf }, fun ip hip => (k.2 ip hip).congr rfl fun _ _ => rfl⟩

/-- A packet is placed in buffers in use. -/
theorem Counted.live (k : Counted held rb s L) (hip : ip ∈ held ++ s.queue) (ha : ip.CountedIn a) : a ∈ s.ibUse :=
  k.1.live a (tally_pos_iff.2 ⟨ip, hip, ha⟩)

/-- **A new buffer** has no packets. -/
theorem Counted.appended (k : Counted held (some b) s L) (hc : Chain s.next s.inBuf L) (hib : ib ∉ s.ibUse)
    (hne : ∀ a ∈ L, (s.ibs a).buf ≠ b) (hb : (s.bufs b).offset ≤ bufferSize) :
    Counted held (some b) (s.appended L ib b) (L ++ [ib]) := by
  have hfresh : ib ∉ L := fun hm => hib (k.1.linked.live ib hm)
  obtain ⟨hl, hchain⟩ := Standing.appended ⟨k.1.linked, hc⟩ hib hb
  have hbuf : ∀ a, a ≠ ib → ((s.appended L ib b).ibs a).buf = (s.ibs a).buf ∧
      ((s.appended L ib b).ibs a).offset = (s.ibs a).offset ∧
      ((s.appended L ib b).ibs a).packetCount = (s.ibs a).packetCount := fun a ha => by
    by_cases haL : a ∈ L
    · rw [ibs_appended_on hfresh haL]
      exact ⟨rfl, rfl, rfl⟩
    · rw [ibs_appended_off ha haL]
      exact ⟨rfl, rfl, rfl⟩
  have hzero : tally (held ++ s.queue) ib = 0 := Nat.eq_zero_of_not_pos fun hpos => hib (k.1.live ib hpos)
  have hneib : ∀ a ∈ s.ibUse, a ≠ ib := fun a ha he => hib (he ▸ ha)
  have hread : ∀ a ∈ s.ibUse, (s.ibs a).buf ≠ b := fun a ha he =>
    hne a (List.mem_of_getLast? ((k.1.read b rfl).2 a ha he)) he
  have hnew : ((s.appended L ib b).ibs ib).buf = b := by rw [ibs_appended_new]
  have hnew' : ((s.appended L ib b).ibs ib).offset = 0 := by rw [ibs_appended_new]
  -- a link that is there stays: only the last buffer has none
  have hnext : ∀ a c, s.next a = some c → a ≠ ib → (s.appended L ib b).next a = some c := fun a c hac ha => by
    by_cases haL : a ∈ L
    · have hlast : L.getLast? ≠ some a := fun hl => by
        obtain ⟨m, rfl⟩ := List.getLast?_eq_some_iff.1 hl
        rw [hc.link] at hac
        cases hac
      rw [next, ibs_appended_on hfresh haL, if_neg hlast]
      exact hac
    · rw [next, ibs_appended_off ha haL]
      exact hac
  have hLne : ∀ a ∈ L, a ≠ ib := fun a ha => hneib a (k.1.linked.live a ha)
  refine ⟨⟨hl, ⟨_, List.suffix_refl _, hchain⟩, fun _ => ?_, fun a ha => ?_, fun a ha => ?_, ?_, k.1.le, fun a ha => ?_,
    fun a ha c hc' => ?_, fun a ha => ?_, fun a ha => ?_, fun a ha => ?_, fun a ha => ?_, ?_⟩, fun ip hip => ?_⟩
  · intro h
    cases h
  · rcases List.mem_cons.1 ha with rfl | ha
    · rw [ibs_appended_new]
      exact hzero.symm
    · rw [(hbuf a (hneib a ha)).2.2]
      exact k.1.exact a ha
  · exact List.mem_cons_of_mem ib (k.1.live a ha)
  · exact List.nodup_cons.2 ⟨hib, k.1.nodup⟩
  · rcases List.mem_cons.1 ha with rfl | ha
    · rw [hnew]
      exact (k.1.read b rfl).1
    · rw [(hbuf a (hneib a ha)).1]
      exact k.1.buf a ha
  · rcases List.mem_cons.1 ha with rfl | ha₁ <;> rcases List.mem_cons.1 hc' with rfl | hc₁
    · exact fun _ => rfl
    · rw [hnew, (hbuf c (hneib c hc₁)).1]
      exact fun he => absurd he.symm (hread c hc₁)
    · rw [hnew, (hbuf a (hneib a ha₁)).1]
      exact fun he => absurd he (hread a ha₁)
    · rw [(hbuf a (hneib a ha₁)).1, (hbuf c (hneib c hc₁)).1]
      exact k.1.inj a ha₁ c hc₁
  · show tally (held ++ s.queue) a ≤ _
    rcases List.mem_append.1 ha with haL | ha₁
    · rw [(hbuf a (hLne a haL)).2.1]
      exact k.1.count_le a haL
    · rw [List.mem_singleton.1 ha₁, hzero]
      exact Nat.zero_le _
  · rcases List.mem_append.1 ha with haL | ha₁
    · rw [(hbuf a (hLne a haL)).2.1]
      exact k.1.offset_le a haL
    · rw [List.mem_singleton.1 ha₁, hnew']
      exact Nat.zero_le _
  · have ha' : a ∈ L.tail ∨ a = ib := by
      cases L with
      | nil => cases ha
      | cons c L => simpa using ha
    rcases ha' with haL | rfl
    · rw [(hbuf a (hLne a (List.mem_of_mem_tail haL))).2.1]
      exact k.1.tail_le a haL
    · rw [hnew']
      exact Nat.zero_le _
  · rw [List.getLast?_concat] at ha
    cases ha
    rw [ibs_appended_new]
  · rintro c ⟨⟩
    refine ⟨(k.1.read b rfl).1, fun a ha he => ?_⟩
    rcases List.mem_cons.1 ha with rfl | ha₁
    · exact List.getLast?_concat
    · rw [(hbuf a (hneib a ha₁)).1] at he
      exact absurd he (hread a ha₁)
  · have hp := k.2 ip hip
    have hlive : ∀ a, ip.CountedIn a → a ≠ ib := fun a ha => hneib a (k.live hip ha)
    refine ⟨fun c hc' => hnext _ c (hp.next c hc') (hlive _ (.inl rfl)), hp.ne, fun b' off hd => ?_⟩
    obtain ⟨a, ha, rfl⟩ := hp.data b' off hd
    exact ⟨a, ha, (hbuf a (hlive a ha)).1⟩

/-- A call of `APB_ProcessBuffer` on the read buffer. -/
theorem counted_process {fuel : Nat} (k : Counted held (some b) s L) (hc : Chain s.next s.inBuf L)
    (hb : (s.bufs b).offset ≤ bufferSize) (hp : s.processBuffer fuel al b = some s') :
    ∃ l, Counted held (some b) s' l ∧ Chain s'.next s'.inBuf l := by
  obtain ⟨r, hr, hcases⟩ := append_cases al b hc k.1.linked.live
  have hp' := (processBuffer_of_append (hr _ (le_max_right fuel (L.length + 1)))).symm.trans
    (processBuffer_mono hp (le_max_left _ _))
  obtain ⟨rfl, -⟩ | ⟨rfl, -⟩ | ⟨ib, hib, hne, rfl⟩ := hcases
  · exact counted_loop k k.1.inBuf hp'
  · cases hp'
    exact ⟨L, k, hc⟩
  · have k' := k.appended hc hib hne hb
    exact counted_loop k' k'.1.inBuf hp'

/-- A new read buffer. -/
theorem Counted.allocateBuffer (k : Counted held rb s L) (hc : Chain s.next s.inBuf L) (hb : b ∉ s.bufUse) :
    Counted held (some b) (s.allocateBuffer b) L := by
  refine ⟨{ k.1 with
    linked := ⟨⟨_, hc⟩, k.1.linked.live, k.1.linked.even, fun a ha => ?_, k.1.linked.count_lt⟩
    inBuf := k.1.inBuf
    buf := fun a ha => List.mem_cons_of_mem b (k.1.buf a ha)
    read := ?_ }, fun ip hip => (k.2 ip hip).congr rfl fun _ _ => rfl⟩
  · have hne : (s.ibs a).buf ≠ b := fun he => hb (he ▸ k.1.buf a (k.1.linked.live a ha))
    show ((s.allocateBuffer b).bufs (s.ibs a).buf).offset ≤ _
    rw [bufs_allocateBuffer_of_ne hne]
    exact k.1.linked.bytes_le a ha
  · rintro c ⟨⟩
    exact ⟨List.mem_cons_self, fun a ha he => absurd (he ▸ k.1.buf a ha) hb⟩

end Receive

/-! ## Releasing -/

/-- **Counting out** of a buffer that has packets, when that frees no buffer before the parser. -/
theorem Kept.countOut (k : Kept T rb s L) (hc : Chain s.next s.inBuf L) (hT : 0 < T b) (hsafe : s.SafeCountOut b) :
    Kept (fun a => T a - if a = b then 1 else 0) rb (s.countOut b) L := by
  have hexact := k.exact b (k.live b hT)
  have hle := k.le b
  have hcount : ((s.ibs b).packetCount + 65535) % 65536 = T b - 1 := by omega
  have huse := countOut_ibUse (s := s) (a := b)
  have hbuse := countOut_bufUse (s := s) (a := b)
  rw [hcount] at huse hbuse
  have hsub : ∀ a, a ∈ (s.countOut b).ibUse → a ∈ s.ibUse := fun a ha => by
    rw [huse] at ha
    split at ha
    · exact List.mem_of_mem_erase ha
    · exact ha
  refine ⟨(Standing.countOut ⟨k.linked, hc⟩ hsafe).1, ?_, ?_, fun a ha => ?_, fun a ha => ?_, ?_,
    fun a => (Nat.sub_le _ _).trans (k.le a), fun a ha => ?_, fun a ha c hc => ?_, fun a ha => ?_, fun a ha => ?_,
    fun a ha => ?_, fun a ha => ?_, fun c hrb => ?_⟩
  · obtain ⟨l, hl, hcl⟩ := k.inBuf
    exact ⟨l, hl, by rwa [countOut_next, countOut_inBuf]⟩
  · rw [countOut_inBuf]
    exact k.inBuf_isSome
  · rw [countOut_packetCount]
    split
    · subst a
      exact hcount
    · rw [k.exact a (hsub a ha)]
      rfl
  · have hlive := k.live a (by omega)
    rw [huse]
    split
    · rename_i hfree
      have hne : a ≠ b := fun he => by
        subst he
        rw [if_pos rfl] at ha
        omega
      exact (List.mem_erase_of_ne hne).2 hlive
    · exact hlive
  · rw [huse]
    split
    · exact k.nodup.erase b
    · exact k.nodup
  · rw [countOut_buf, hbuse]
    rw [huse] at ha
    split at ha
    · rename_i hfree
      rw [if_pos hfree]
      obtain ⟨hne, ha⟩ := k.nodup.mem_erase_iff.1 ha
      exact (List.mem_erase_of_ne fun he => hne (k.inj a ha b (k.live b hT) he)).2 (k.buf a ha)
    · rename_i hkeep
      rw [if_neg hkeep]
      exact k.buf a ha
  · rw [countOut_buf, countOut_buf]
    exact k.inj a (hsub a ha) c (hsub c hc)
  · rw [countOut_offset]
    exact (Nat.sub_le _ _).trans (k.count_le a ha)
  · rw [countOut_offset]
    exact k.offset_le a ha
  · rw [countOut_offset]
    exact k.tail_le a ha
  · rw [countOut_canRelease]
    exact k.last a ha
  · obtain ⟨h₁, h₂⟩ := k.read c hrb
    refine ⟨?_, fun a ha he => h₂ a (hsub a ha) (by rwa [countOut_buf] at he)⟩
    rw [hbuse]
    split
    · rename_i hfree
      have hne : c ≠ (s.ibs b).buf := fun he => by
        have := k.last b (h₂ b (k.live b hT) he.symm)
        rw [this] at hfree
        cases hfree.2
      exact (List.mem_erase_of_ne hne).2 h₁
    · exact h₁

/-- The release counts out of no other buffers than the packet was counted into. -/
def OwnRelease (s : Reader) (ip : InPacket) : Prop := ip.inBuf2 = none → s.next ip.inBuf = none

/-- The counts without the packet at `i`. -/
theorem tally_release {i : Nat} {queue : List InPacket} (hi : held[i]? = some ip) (hne : ip.inBuf2 ≠ some ip.inBuf) :
    tally (held.eraseIdx i ++ queue) = fun a =>
      tally (held ++ queue) a - (if a = ip.inBuf then 1 else 0) - if ip.inBuf2 = some a then 1 else 0 := by
  funext a
  have hcounted : ip.CountedIn a ↔ a = ip.inBuf ∨ ip.inBuf2 = some a := or_congr_left eq_comm
  have ht : tally (held ++ queue) a = tally (held.eraseIdx i ++ queue) a + if ip.CountedIn a then 1 else 0 :=
    tally_eraseIdx hi a
  simp only [hcounted] at ht
  by_cases ha : a = ip.inBuf
  · subst ha
    rw [if_pos (.inl rfl)] at ht
    rw [if_pos rfl, if_neg hne]
    omega
  · rw [if_neg ha]
    by_cases h2 : ip.inBuf2 = some a
    · rw [if_pos (.inr h2)] at ht
      rw [if_pos h2]
      omega
    · rw [if_neg (by rintro (h | h); exacts [ha h, h2 h])] at ht
      rw [if_neg h2]
      omega

/-- **What counting out keeps, releasing keeps.** -/
theorem Counted.release_inv {i : Nat} (I : (IbPtr → Nat) → Reader → Prop)
    (hI : ∀ T s b, I T s → 0 < T b → s.SafeCountOut b → I (fun a => T a - if a = b then 1 else 0) (s.countOut b))
    (k : Counted held rb s L) (hi : held[i]? = some ip) (hsafe : s.SafeRelease ip) (hown : s.OwnRelease ip)
    (h : I (tally (held ++ s.queue)) s) :
    I (tally (held.eraseIdx i ++ (s.releaseInPacket ip).queue)) (s.releaseInPacket ip) := by
  have hmem : ip ∈ held ++ s.queue := List.mem_append_left _ (List.mem_of_getElem? hi)
  have hp := k.2 ip hmem
  have h₁ := hI _ s _ h (tally_pos_iff.2 ⟨ip, hmem, .inl rfl⟩) hsafe.1
  rw [releaseInPacket_queue, tally_release hi hp.ne]
  simp only [releaseInPacket, countOut_next]
  cases h2 : ip.inBuf2 with
  | none =>
    simpa only [hown h2, reduceCtorEq, if_false, Nat.sub_zero] using h₁
  | some c =>
    have hn := hp.next c h2
    have hne : c ≠ ip.inBuf := fun he => hp.ne (he ▸ h2)
    have hpos : 0 < tally (held ++ s.queue) c - if c = ip.inBuf then 1 else 0 := by
      rw [if_neg hne]
      exact tally_pos_iff.2 ⟨ip, hmem, .inr h2⟩
    simpa only [hn, Option.some_inj, eq_comm] using hI _ _ c h₁ hpos ((hsafe.2 c hn).countOut hne)

/-- **Releasing a packet.** -/
theorem Counted.release {i : Nat} (k : Counted held rb s L) (hc : Chain s.next s.inBuf L) (hi : held[i]? = some ip)
    (hsafe : s.SafeRelease ip) (hown : s.OwnRelease ip) :
    Counted (held.eraseIdx i) rb (s.releaseInPacket ip) L ∧
      Chain (s.releaseInPacket ip).next (s.releaseInPacket ip).inBuf L := by
  obtain ⟨k', hc'⟩ := k.release_inv (fun T s => Kept T rb s L ∧ Chain s.next s.inBuf L)
    (fun T s b h hT hs => ⟨h.1.countOut h.2 hT hs, by rw [countOut_next, countOut_inBuf]; exact h.2⟩) hi hsafe hown
    ⟨k.1, hc⟩
  refine ⟨⟨k', fun q hq => ?_⟩, hc'⟩
  rw [releaseInPacket_queue] at hq
  have hq' : q ∈ held ++ s.queue := (List.mem_append.1 hq).elim
    (fun h => List.mem_append_left _ (List.mem_of_mem_eraseIdx h)) (fun h => List.mem_append_right _ h)
  exact (k.2 q hq').congr (congrFun (releaseInPacket_next s ip) _) fun a _ => releaseInPacket_buf s ip

end Reader

namespace Rx

open Reader

/-- A release frees no buffer before the parser, and counts out of the packet's own buffers only. -/
def OwnStep (x : Rx) : Event → Prop
  | .release i => ∀ ip, x.held[i]? = some ip → x.rd.SafeRelease ip ∧ x.rd.OwnRelease ip
  | _ => True

/-- Between events. -/
def Exact (x : Rx) : Prop :=
  (∃ L, Counted x.held x.readBuffer x.rd L ∧ Chain x.rd.next x.rd.inBuf L) ∧
    ∀ b, x.readBuffer = some b → (x.rd.bufs b).offset ≤ bufferSize

variable {al : Alloc} {x x' : Rx} {fuel : Nat}

theorem exact_beginRead (h : x.Exact) : (srvBeginRead al x).Exact := by
  obtain ⟨⟨L, k, hc⟩, hb⟩ := h
  obtain hx | ⟨c, hcu, hx⟩ := beginRead_cases al x
  · rw [hx]
    exact ⟨⟨L, k, hc⟩, hb⟩
  · rw [hx]
    refine ⟨⟨L, k.allocateBuffer hc hcu, hc⟩, ?_⟩
    rintro b ⟨⟩
    rw [bufs_allocateBuffer_self]
    exact Nat.zero_le _

theorem exact_init (ibs : IbPtr → InBuffer) (bufs : BufPtr → Buffer) :
    Exact { rd := createPacketReader ibs bufs, readBuffer := none, held := [] } := by
  refine ⟨⟨[], ⟨⟨⟨⟨none, rfl⟩, ?_, ?_, ?_, ?_⟩, ⟨[], List.suffix_refl _, rfl⟩, fun h => absurd rfl h,
    ?_, ?_, List.nodup_nil, ?_, ?_, ?_, ?_, ?_, ?_, ?_, ?_⟩, ?_⟩, rfl⟩, ?_⟩
  case refine_6 => exact fun a ha => absurd ha (lt_irrefl 0)
  case refine_7 => exact fun a => Nat.zero_le _
  all_goals exact nofun

theorem exact_start (al : Alloc) (ibs : IbPtr → InBuffer) (bufs : BufPtr → Buffer) : (start al ibs bufs).Exact :=
  exact_beginRead (exact_init ibs bufs)

theorem exact_receive {b : BufPtr} {rd : Reader} {bs : List UInt8} (h : x.Exact) (hrb : x.readBuffer = some b)
    (hfit : (x.rd.bufs b).offset + bs.length ≤ bufferSize) (hp : (x.rd.fill b bs).processBuffer fuel al b = some rd) :
    Exact { x with rd := rd } := by
  obtain ⟨⟨L, k, hc⟩, -⟩ := h
  have hfill : ((x.rd.fill b bs).bufs b).offset ≤ bufferSize := by
    rw [bufs_fill_self]
    exact hfit
  rw [hrb] at k
  obtain ⟨L', k', hc'⟩ := counted_process (k.fill hc hfit) hc hfill hp
  have hbufs := (standing_process (Standing.fill ⟨k.1.linked, hc⟩ hfit) hfill hp).2
  refine ⟨⟨L', hrb ▸ k', hc'⟩, fun c hcb => ?_⟩
  cases hrb.symm.trans hcb
  rw [hbufs]
  exact hfill

/-- **Every event** that meets the condition keeps the counts. -/
theorem exact_step {e : Event} (h : x.Exact) (hok : x.OwnStep e) (hs : x.step fuel e = some x') : x'.Exact := by
  cases e with
  | receive al bs =>
    obtain ⟨-, rfl⟩ | ⟨b, rd, -, hrb, hfit, hp, rfl⟩ := receive_cases hs
    · exact h
    · exact exact_beginRead (exact_receive h hrb hfit hp)
  | dequeue =>
    obtain ⟨⟨L, k, hc⟩, hb⟩ := h
    cases hs
    obtain ⟨q, n, hd, hq⟩ := dequeue_cases x.rd
    rw [hd]
    have hU : x.held ++ x.rd.dequeueInPacket.1.toList ++ q = x.held ++ x.rd.queue := by rw [List.append_assoc, hq]
    refine ⟨⟨L, ⟨?_, fun ip hip => (k.2 ip (hU ▸ hip)).congr rfl fun _ _ => rfl⟩, hc⟩, hb⟩
    show Kept (tally (x.held ++ x.rd.dequeueInPacket.1.toList ++ q)) _ _ L
    rw [hU]
    exact { k.1 with
      linked := ⟨k.1.linked.chain, k.1.linked.live, k.1.linked.even, k.1.linked.bytes_le, k.1.linked.count_lt⟩
      inBuf := k.1.inBuf }
  | release i =>
    obtain ⟨⟨L, k, hc⟩, hb⟩ := h
    simp only [step] at hs
    split at hs
    · cases hs
    · rename_i ip hip
      cases hs
      obtain ⟨hsafe, hown⟩ := hok ip hip
      obtain ⟨k', hc'⟩ := k.release hc hip hsafe hown
      refine ⟨⟨L, k', hc'⟩, fun b hrb => ?_⟩
      show ((x.rd.releaseInPacket ip).bufs b).offset ≤ _
      rw [releaseInPacket_bufs]
      exact hb b hrb

/-- Every count is the number of unreleased packets that were counted into the buffer; these packets lie in buffers in
use, whose counts can be taken down. -/
structure ExactCounts (x : Rx) : Prop where
  count : ∀ a ∈ x.rd.ibUse, (x.rd.ibs a).packetCount = tally x.unreleased a
  positive : ∀ ip ∈ x.unreleased, ∀ a, ip.CountedIn a → a ∈ x.rd.ibUse ∧ 0 < (x.rd.ibs a).packetCount
  data : ∀ ip ∈ x.unreleased, ∀ b off, ip.data1 = some (b, off) ∨ ip.data2 = some (b, off) → b ∈ x.rd.bufUse

theorem Exact.exactCounts (h : x.Exact) : x.ExactCounts := by
  obtain ⟨⟨L, k, -⟩, -⟩ := h
  refine ⟨k.1.exact, fun ip hip a ha => ?_, fun ip hip b off hd => ?_⟩
  · have hlive := k.live hip ha
    rw [k.1.exact a hlive]
    exact ⟨hlive, tally_pos_iff.2 ⟨ip, hip, ha⟩⟩
  · obtain ⟨a, ha, rfl⟩ := (k.2 ip hip).data b off hd
    exact k.1.buf a (k.live hip ha)

/-- **The counts are exact** and no buffer is freed under a packet, whatever the bytes and the reads, in every run in
which each release takes its packet out of the packet's own buffers only and frees none that the parser has before
it. -/
theorem counts_exact (al : Alloc) (ibs : IbPtr → InBuffer) (bufs : BufPtr → Buffer) (es : List Event) (fuel : Nat)
    (x : Rx) (hok : Along OwnStep (step fuel) (start al ibs bufs) es)
    (hx : runs (step fuel) (start al ibs bufs) es = some x) : x.ExactCounts :=
  (runs_inv Exact (fun _ _ _ h ho hs => exact_step h ho hs) (exact_start al ibs bufs) hok hx).exactCounts

/-- A release that meets the condition. -/
theorem counts_exact_early_release : ∃ x : Rx, runs (step 2) fresh earlyRelease = some x ∧ x.ExactCounts := by
  obtain ⟨x₁, x₂, x₃, ip, h₁, h₂, h₃, hheld, hnext, hrel⟩ := early_released
  obtain ⟨hok, hx⟩ := early_release_along OwnStep h₁ h₂ h₃ (fun _ _ => trivial) (fun _ => trivial) (by
    intro q hq
    rw [hheld] at hq
    cases hq
    exact ⟨⟨fun _ h => absurd (hrel.symm.trans h) (by decide), fun b hb => absurd (hnext.symm.trans hb) nofun⟩,
      fun _ => hnext⟩)
  exact ⟨x₃, hx, counts_exact .unbounded (fun _ => default) (fun _ => default) _ 2 x₃ hok hx⟩

/-- **A count can wrap below zero**: the packet that ends the first buffer is counted out of the next one too, which
has no packet. -/
theorem late_release_wraps_count :
    ∃ (ps : List WirePacket) (es : List Event) (x : Rx), received es <+: ps.flatMap WirePacket.bytes ∧
      (∀ al bs, .receive al bs ∈ es → al.Succeeds) ∧ (∀ fuel ≥ 2, runs (step fuel) fresh es = some x) ∧
      ∃ a ∈ x.rd.ibUse, (x.rd.ibs a).packetCount = 65535 ∧ tally x.unreleased a = 0 := by
  obtain ⟨x, hx, hU, -, hu, hcount⟩ := full_released
  refine ⟨[fullPacket, fullPacket], lateRelease, x, received_lateRelease, succeeds_lateRelease, hx, 2, ?_, hcount, ?_⟩
  · rw [hu]
    exact List.mem_singleton_self 2
  · rw [hU]
    rfl

end Rx

end AmiPiBorg
