import AmiPiBorg.Reader.Arrive

/-!
# The buffers before the parser

`Linked s M`: the buffers `M` are a chain of buffers in use, with even offsets and at most 4096 bytes. The loop of
`APB_ProcessBuffer` never leaves such a chain, and every turn that goes round brings it nearer to its end
(`walking_turn`). `Sound` is the invariant between events: it survives every read, and every release that does not free
a buffer which the parser still has before it (`SafeRelease`). So along a run of safe releases the parser never loses
a buffer (`parser_buffers_in_use`).
-/

set_option autoImplicit false

namespace AmiPiBorg

open ProgLib

namespace Reader

/-- `M` is a chain of buffers in use. -/
structure Linked (s : Reader) (M : List IbPtr) : Prop where
  chain : ∃ p, Chain s.next p M
  live : ∀ a ∈ M, a ∈ s.ibUse
  even : ∀ a ∈ M, (s.ibs a).offset % 2 = 0
  bytes_le : ∀ a ∈ M, s.bytes a ≤ bufferSize
  count_lt : ∀ a ∈ M, (s.ibs a).packetCount < 65536

/-- The pointer `p` stands on the chain `M`, or at its end. -/
def At (s : Reader) (M : List IbPtr) (p : Option IbPtr) : Prop := ∃ l, l <:+ M ∧ Chain s.next p l

/-- The buffer can be reached from `pr_InBuf` through `ib_Next`. -/
def Reachable (s : Reader) (a : IbPtr) : Prop := ∃ l, Chain s.next s.inBuf l ∧ a ∈ l

variable {s s' : Reader} {al : Alloc} {M l : List IbPtr} {a b ib1 : IbPtr} {p : Option IbPtr} {h : Header} {d : Located}

theorem Linked.suffix (L : s.Linked M) (hl : l <:+ M) : s.Linked l := by
  obtain ⟨p, hc⟩ := L.chain
  obtain ⟨t, rfl⟩ := hl
  refine ⟨?_, fun a ha => L.live a (List.mem_append_right t ha), fun a ha => L.even a (List.mem_append_right t ha),
    fun a ha => L.bytes_le a (List.mem_append_right t ha), fun a ha => L.count_lt a (List.mem_append_right t ha)⟩
  cases l with
  | nil => exact ⟨none, rfl⟩
  | cons a l => exact ⟨some a, hc.suffix⟩

theorem At.congr (hp : s.At M p) (hs : SameLayout s s') : s'.At M p := by
  obtain ⟨l, hl, hc⟩ := hp
  exact ⟨l, hl, hs.next_eq ▸ hc⟩

/-- A buffer of the chain, and the rest behind it. -/
theorem At.cons (hp : s.At M (some a)) : ∃ r, a :: r <:+ M ∧ Chain s.next (s.next a) r := by
  obtain ⟨l, hl, hc⟩ := hp
  obtain ⟨r, rfl, hr⟩ := hc.of_some
  exact ⟨r, hl, hr⟩

theorem At.mem (hp : s.At M (some a)) : a ∈ M := by
  obtain ⟨r, hr, -⟩ := hp.cons
  exact hr.subset List.mem_cons_self

theorem At.next (hp : s.At M (some a)) : s.At M (s.next a) := by
  obtain ⟨r, hr, hc⟩ := hp.cons
  exact ⟨r, (List.suffix_cons a r).trans hr, hc⟩

/-- Offsets and counts may change, as long as they stay even and in range. -/
theorem Linked.congr (L : s.Linked M) (hs : SameLayout s s') (he : ∀ a ∈ M, (s'.ibs a).offset % 2 = 0)
    (hc : ∀ a ∈ M, (s'.ibs a).packetCount < 65536) : s'.Linked M := by
  obtain ⟨p, hp⟩ := L.chain
  refine ⟨⟨p, hs.next_eq ▸ hp⟩, fun a ha => ?_, he, fun a ha => ?_, hc⟩
  · rw [hs.ibUse]
    exact L.live a ha
  · rw [hs.bytes_eq]
    exact L.bytes_le a ha

/-! ## The parser's moves -/

/-- The second buffer is not the first. -/
theorem Looked.ne {ib2 : Option IbPtr} (hl : s.Looked a ib2) (hp : s.At M (some a)) : ib2 ≠ some a := by
  rintro rfl
  obtain ⟨h, -⟩ | ⟨-, hn, -⟩ := hl
  · cases h
  · obtain ⟨r, -, hc⟩ := hp.cons
    have hnd := (show Chain s.next (some a) (a :: r) from ⟨rfl, hc⟩).nodup
    rw [hn] at hc
    obtain ⟨r', rfl, -⟩ := hc.of_some
    simp at hnd

/-- The buffer that the parser goes on in. -/
theorem Looked.at {ib2 : Option IbPtr} (hl : s.Looked a ib2) (hp : s.At M (some a)) : s.At M (some (ib2.getD a)) := by
  obtain ⟨rfl, -⟩ | ⟨h₁, h₂, -⟩ := hl
  · exact hp
  · obtain ⟨b, rfl⟩ := Option.isSome_iff_exists.1 h₁
    exact h₂ ▸ hp.next

theorem linked_skip (L : s.Linked M) (hb : s.At M (some b)) (hi : s.At M s.inBuf) :
    (s.skip b).Linked M ∧ (s.skip b).At M (s.skip b).inBuf := by
  have hs := skip_sameLayout s b
  refine ⟨L.congr hs (fun a ha => ?_) fun a ha => ?_, ?_⟩
  · by_cases hlt : (s.ibs b).offset < s.bytes b
    · have := L.even a ha
      have := L.even b hb.mem
      rw [skip_of_lt hlt, offset_advance]
      split <;> omega
    · rw [skip_ibs_of_ge (Nat.not_lt.1 hlt)]
      exact L.even a ha
  · rw [skip_packetCount]
    exact L.count_lt a ha
  · rcases skip_inBuf s b with h | ⟨h, -⟩
    · rw [h]
      exact hi.congr hs
    · rw [h]
      exact hb.next.congr hs

/-- An accepted packet has an even number of bytes. -/
theorem Accepted.even (acc : s.Accepted al a h d) (L : s.Linked M) (ha : a ∈ M) :
    (d.consumed + d.oddSize) % 2 = 0 := by
  have hL := lengths_of_locate acc.header acc.locate (L.even a ha) acc.le (L.bytes_le a ha)
  have hne : ¬(h.hdr.length.toNat + d.oddSize) % 2 = 1 := fun ho => by
    cases acc.sum.symm.trans ((packetSum_eq_none_iff hL acc.length_le).2 ho)
  have := hL.consumed
  omega

theorem linked_accept (L : s.Linked M) (ha : s.At M (some a)) (acc : s.Accepted al a h d) :
    (s.accept a h d).1.Linked M ∧ (s.accept a h d).1.At M (s.accept a h d).1.inBuf ∧
      (s.accept a h d).1.At M (s.accept a h d).2 := by
  have hs := accept_sameLayout s a h d
  have hnext := acc.found.looked.at ha
  refine ⟨L.congr hs (fun c hc => ?_) fun c hc => ?_, ?_, ?_⟩
  · have := L.even c hc
    have := L.even _ hnext.mem
    have := acc.even L ha.mem
    rw [accept_offset]
    split <;> omega
  · have := L.count_lt c hc
    rw [accept_packetCount s a h d (acc.found.looked.ne ha)]
    split <;> omega
  · rw [accept_inBuf]
    exact hnext.congr hs
  · rw [accept_ib1]
    split
    · exact hnext.next.congr hs
    · exact hnext.congr hs

/-! ## The loop -/

/-- How much the parser has before it: the buffers behind the first, and the bytes of the first. -/
def ahead (s : Reader) : List IbPtr → Nat
  | [] => 0
  | a :: l => (l.length + 1) * 4097 + (s.bytes a - (s.ibs a).offset)

theorem ahead_cons (s : Reader) (a : IbPtr) (l : List IbPtr) :
    s.ahead (a :: l) = (l.length + 1) * 4097 + (s.bytes a - (s.ibs a).offset) := rfl

theorem ahead_lt (L : s.Linked M) (hl : l <:+ M) {n : Nat} (hn : l.length < n) : s.ahead l < n * 4097 := by
  cases l with
  | nil =>
    simp only [ahead, List.length_nil] at *
    omega
  | cons b r =>
    have := L.bytes_le b (hl.subset List.mem_cons_self)
    simp only [ahead, List.length_cons, bufferSize] at *
    omega

/-- The state of the loop: the parser is on the chain `M`, with `k` before it. -/
def Walking (M : List IbPtr) (k : Nat) (t : Reader × Option IbPtr) : Prop :=
  t.1.Linked M ∧ t.1.At M t.1.inBuf ∧ ∃ l, l <:+ M ∧ Chain t.1.next t.2 l ∧ k = t.1.ahead l

theorem walking_skip {k : Nat} {ib2 : Option IbPtr} (w : Walking M k (s, some a)) (hl : s.Looked a ib2) :
    ∃ k' < k, s.badData a ib2 = .again (s.skip (ib2.getD a), some (ib2.getD a)) ∧
      Walking M k' (s.skip (ib2.getD a), some (ib2.getD a)) := by
  obtain ⟨L, hi, l, hlM, hc, rfl⟩ := w
  obtain ⟨r, rfl, hr⟩ := hc.of_some
  have ha : s.At M (some a) := ⟨a :: r, hlM, hc⟩
  have hib := hl.at ha
  have hs := skip_sameLayout s (ib2.getD a)
  obtain ⟨L', hi'⟩ := linked_skip L hib hi
  have hbad := badData_again (L.bytes_le _ hib.mem)
  obtain ⟨rfl, hoff⟩ | ⟨h₁, h₂, -⟩ := hl
  · refine ⟨_, ?_, hbad, L', hi', a :: r, hlM, hs.next_eq ▸ hc, rfl⟩
    rw [Option.getD_none] at *
    simp only [sizeofPacket] at hoff
    have hoff' : ((s.skip a).ibs a).offset = ((s.ibs a).offset + 2) % 65536 := by
      rw [skip_of_lt (by omega), offset_advance, if_pos rfl]
    have := L.bytes_le a ha.mem
    simp only [ahead, hs.bytes_eq, hoff', bufferSize] at *
    omega
  · obtain ⟨b, rfl⟩ := Option.isSome_iff_exists.1 h₁
    obtain ⟨r', rfl, -⟩ := (h₂ ▸ hr).of_some
    have hsuf : b :: r' <:+ M := (List.suffix_cons a _).trans hlM
    refine ⟨_, ?_, hbad, L', hi', b :: r', hsuf, hs.next_eq ▸ (h₂ ▸ hr), rfl⟩
    have := ahead_lt L' hsuf (Nat.lt_succ_self _)
    rw [ahead_cons s a]
    exact this.trans_le (Nat.le_add_right _ _)

theorem walking_accept {k : Nat} (w : Walking M k (s, some a)) (acc : s.Accepted al a h d) :
    ∃ k' < k, Walking M k' (s.accept a h d) := by
  obtain ⟨L, hi, l, hlM, hc, rfl⟩ := w
  obtain ⟨r, rfl, hr⟩ := hc.of_some
  have ha : s.At M (some a) := ⟨a :: r, hlM, hc⟩
  have hs := accept_sameLayout s a h d
  obtain ⟨L', hi', -⟩ := linked_accept L ha acc
  have hf := acc.found
  -- behind the first buffer there is less
  have hless : ∀ {l' : List IbPtr}, l' <:+ r → (s.accept a h d).1.ahead l' < s.ahead (a :: r) := fun hl' => by
    rw [ahead_cons s a]
    exact (ahead_lt L' ((hl'.trans (List.suffix_cons a r)).trans hlM) (Nat.lt_succ_of_le hl'.length_le)).trans_le
      (Nat.le_add_right _ _)
  have hib1 := accept_ib1 s a h d
  rw [← congrFun hs.next_eq (d.ib2.getD a)] at hib1
  cases hd : d.ib2 with
  | none =>
    rw [hd, Option.getD_none] at hib1
    split at hib1
    · exact ⟨_, hless (List.suffix_refl r), L', hi', r, (List.suffix_cons a r).trans hlM,
        by rw [hib1, hs.next_eq]; exact hr, rfl⟩
    · refine ⟨_, ?_, L', hi', a :: r, hlM, by rw [hib1, hs.next_eq]; exact hc, rfl⟩
      have hone := hf.one hd
      have := L.bytes_le a ha.mem
      have hoff' : ((s.accept a h d).1.ibs a).offset = ((s.ibs a).offset + (d.consumed + d.oddSize)) % 65536 := by
        rw [accept_offset, hd, Option.getD_none, if_pos rfl]
      simp only [ahead, hs.bytes_eq, hoff', sizeofPacket, bufferSize] at *
      omega
  | some b =>
    obtain ⟨h₁, -⟩ | ⟨-, h₂, -⟩ := hf.looked
    · cases h₁.symm.trans hd
    · rw [hd] at h₂
      obtain ⟨r', rfl, hr'⟩ := (h₂ ▸ hr).of_some
      rw [hd, Option.getD_some] at hib1
      split at hib1
      · exact ⟨_, hless (List.suffix_cons b r'), L', hi', r', ((List.suffix_cons b r').trans
          (List.suffix_cons a _)).trans hlM, by rw [hib1, hs.next_eq]; exact hr', rfl⟩
      · exact ⟨_, hless (List.suffix_refl _), L', hi', b :: r', (List.suffix_cons a _).trans hlM,
          by rw [hib1, hs.next_eq]; exact h₂ ▸ hr, rfl⟩

/-- **A turn** stops, or keeps the chain and has less before it. -/
theorem walking_turn {k : Nat} {t : Turn (Reader × Option IbPtr) Reader} (w : Walking M k (s, p))
    (ht : turn al (s, p) = some t) : t = .done s ∨ ∃ u k', t = .again u ∧ k' < k ∧ Walking M k' u := by
  cases p with
  | none =>
    cases ht
    exact .inl rfl
  | some a =>
    obtain rfl | ⟨ib2, hg, rfl⟩ | ⟨h, d, acc, rfl⟩ := turn_cases ht
    · exact .inl rfl
    · obtain ⟨k', hk, hbad, w'⟩ := walking_skip w hg.looked
      exact .inr ⟨_, k', hbad, hk, w'⟩
    · obtain ⟨k', hk, w'⟩ := walking_accept w acc
      exact .inr ⟨_, k', rfl, hk, w'⟩

/-- The loop leaves the parser on the chain. -/
theorem walking_run {k fuel : Nat} (w : Walking M k (s, p)) (hr : Loop.run (turn al) fuel (s, p) = some s') :
    s'.Linked M ∧ s'.At M s'.inBuf := by
  refine Loop.run_inv (fun t => ∃ k, Walking M k t) (fun s' => s'.Linked M ∧ s'.At M s'.inBuf) ?_ ?_ ⟨k, w⟩ hr
  · rintro ⟨t, p⟩ u ⟨k, w⟩ ht
    obtain hd | ⟨u', k', hu, -, w'⟩ := walking_turn w ht
    · cases hd
    · cases hu
      exact ⟨k', w'⟩
  · rintro ⟨t, p⟩ r ⟨k, w⟩ ht
    obtain hd | ⟨u', k', hu, -⟩ := walking_turn w ht
    · cases hd
      exact ⟨w.1, w.2.1⟩
    · cases hu

/-- The parser changes no layout. -/
theorem turn_sameLayout {t : Turn (Reader × Option IbPtr) Reader} (ht : turn al (s, p) = some t) :
    (∃ s', t = .done s' ∧ SameLayout s s') ∨ ∃ u, t = .again u ∧ SameLayout s u.1 := by
  cases p with
  | none =>
    cases ht
    exact .inl ⟨s, rfl, .refl s⟩
  | some a =>
    obtain rfl | ⟨ib2, -, rfl⟩ | ⟨h, d, -, rfl⟩ := turn_cases ht
    · exact .inl ⟨s, rfl, .refl s⟩
    · rcases badData_cases s a ib2 with hb | hb
      · exact .inl ⟨_, hb, skip_sameLayout s _⟩
      · exact .inr ⟨_, hb, skip_sameLayout s _⟩
    · exact .inr ⟨_, rfl, accept_sameLayout s a h d⟩

theorem loop_sameLayout {fuel : Nat} (hr : Loop.run (turn al) fuel (s, p) = some s') : SameLayout s s' := by
  refine Loop.run_inv (fun t => SameLayout s t.1) (fun s' => SameLayout s s') ?_ ?_ (.refl s) hr
  · rintro ⟨t, p⟩ u hst ht
    obtain ⟨s', hd, -⟩ | ⟨u', hu, hs⟩ := turn_sameLayout ht
    · cases hd
    · cases hu
      exact hst.trans hs
  · rintro ⟨t, p⟩ r hst ht
    obtain ⟨s', hd, hs⟩ | ⟨u', hu, -⟩ := turn_sameLayout ht
    · cases hd
      exact hst.trans hs
    · cases hu

/-! ## A call of `APB_ProcessBuffer` -/

section Process

variable {bs : List UInt8} {ib : IbPtr} {fuel : Nat}

/-- The chain that the parser stands at the start of. -/
def Standing (s : Reader) (M : List IbPtr) : Prop := s.Linked M ∧ Chain s.next s.inBuf M

theorem standing_of_at (L : s.Linked M) (hi : s.At M s.inBuf) : ∃ M', s.Standing M' := by
  obtain ⟨l, hl, hc⟩ := hi
  exact ⟨l, L.suffix hl, hc⟩

theorem Standing.walking (st : s.Standing M) : Walking M (s.ahead M) (s, s.inBuf) :=
  ⟨st.1, ⟨M, List.suffix_refl M, st.2⟩, M, List.suffix_refl M, st.2, rfl⟩

theorem bytes_fill_le (hfit : (s.bufs b).offset + bs.length ≤ bufferSize) (ha : s.bytes a ≤ bufferSize) :
    (s.fill b bs).bytes a ≤ bufferSize := by
  show ((s.fill b bs).bufs (s.ibs a).buf).offset ≤ _
  by_cases h : (s.ibs a).buf = b
  · rw [h, bufs_fill_self]
    exact hfit
  · rw [bufs_fill_of_ne h]
    exact ha

theorem Standing.fill (st : s.Standing M) (hfit : (s.bufs b).offset + bs.length ≤ bufferSize) :
    (s.fill b bs).Standing M :=
  ⟨⟨st.1.chain, st.1.live, st.1.even, fun a ha => bytes_fill_le hfit (st.1.bytes_le a ha), st.1.count_lt⟩, st.2⟩

theorem Standing.appended (st : s.Standing M) (hib : ib ∉ s.ibUse) (hb : (s.bufs b).offset ≤ bufferSize) :
    (s.appended M ib b).Standing (M ++ [ib]) := by
  have hfresh : ib ∉ M := fun hm => hib (st.1.live ib hm)
  have hchain := chain_appended (b := b) st.2 hfresh
  refine ⟨⟨⟨_, hchain⟩, fun a ha => ?_, fun a ha => ?_, fun a ha => ?_, fun a ha => ?_⟩, hchain⟩
  all_goals
    rw [List.mem_append, List.mem_singleton] at ha
    rcases ha with ha | rfl
  · exact List.mem_cons_of_mem _ (st.1.live a ha)
  · exact List.mem_cons_self
  · rw [ibs_appended_on hfresh ha]
    exact st.1.even a ha
  · rw [ibs_appended_new]
    exact Nat.zero_mod 2
  · show ((s.appended M ib b).bufs ((s.appended M ib b).ibs a).buf).offset ≤ _
    rw [ibs_appended_on hfresh ha]
    exact st.1.bytes_le a ha
  · show ((s.appended M a b).bufs ((s.appended M a b).ibs a).buf).offset ≤ _
    rw [ibs_appended_new]
    exact hb
  · rw [ibs_appended_on hfresh ha]
    exact st.1.count_lt a ha
  · rw [ibs_appended_new]
    exact Nat.succ_pos _

/-- What appending can do: nothing, fail, or hang a new buffer at the end. -/
theorem append_cases (al : Alloc) (b : BufPtr) (hc : Chain s.next s.inBuf M) (hlive : ∀ a ∈ M, a ∈ s.ibUse) :
    ∃ r : Reader × Bool, (∀ fuel, M.length < fuel → s.appendBuffer fuel al b = some r) ∧
      (r = (s, true) ∧ (∃ a ∈ M, (s.ibs a).buf = b) ∨ r = (s, false) ∧ (∀ a ∈ M, (s.ibs a).buf ≠ b) ∨
        ∃ ib, ib ∉ s.ibUse ∧ (∀ a ∈ M, (s.ibs a).buf ≠ b) ∧ r = (s.appended M ib b, true)) := by
  by_cases h : ∃ a ∈ M, (s.ibs a).buf = b
  · exact ⟨(s, true), fun fuel hf => append_old hc hf h, .inl ⟨rfl, h⟩⟩
  · have h' : ∀ a ∈ M, (s.ibs a).buf ≠ b := fun a ha he => h ⟨a, ha, he⟩
    cases hal : al.inBuffer s with
    | none => exact ⟨(s, false), fun fuel hf => append_fails hc hf h' hal, .inr (.inl ⟨rfl, h'⟩)⟩
    | some ib =>
      have hib := al.inBuffer_fresh s ib hal
      exact ⟨(s.appended M ib b, true), fun fuel hf => append_new hc hf h' hal fun hm => hib (hlive ib hm),
        .inr (.inr ⟨ib, hib, h', rfl⟩)⟩

/-- The call is an append and, unless that fails, the loop. -/
theorem processBuffer_of_append {r : Reader × Bool} (h : s.appendBuffer fuel al b = some r) :
    s.processBuffer fuel al b = if r.2 then Loop.run (turn al) fuel (r.1, r.1.inBuf) else some r.1 := by
  simp only [processBuffer, h, Option.bind_some]

/-- After the append the parser stands at the start of a chain. -/
theorem standing_append (al : Alloc) (b : BufPtr) (st : s.Standing M) (hb : (s.bufs b).offset ≤ bufferSize) :
    ∃ r : Reader × Bool, (∀ fuel, M.length < fuel → s.appendBuffer fuel al b = some r) ∧ r.1.bufs = s.bufs ∧
      ∃ M' : List IbPtr, r.1.Standing M' := by
  obtain ⟨r, hr, hcases⟩ := append_cases al b st.2 st.1.live
  refine ⟨r, hr, ?_⟩
  obtain ⟨rfl, -⟩ | ⟨rfl, -⟩ | ⟨ib, hib, -, rfl⟩ := hcases
  · exact ⟨rfl, M, st⟩
  · exact ⟨rfl, M, st⟩
  · exact ⟨rfl, M ++ [ib], st.appended hib hb⟩

theorem standing_process (st : s.Standing M) (hb : (s.bufs b).offset ≤ bufferSize)
    (hp : s.processBuffer fuel al b = some s') : (∃ M', s'.Standing M') ∧ s'.bufs = s.bufs := by
  obtain ⟨r, hr, hbufs, M', st'⟩ := standing_append al b st hb
  have hp' := (processBuffer_of_append (hr _ (le_max_right fuel (M.length + 1)))).symm.trans
    (processBuffer_mono hp (le_max_left _ _))
  split at hp'
  · obtain ⟨L, hi⟩ := walking_run st'.walking hp'
    exact ⟨standing_of_at L hi, (loop_sameLayout hp').bufs.trans hbufs⟩
  · cases hp'
    exact ⟨⟨M', st'⟩, hbufs⟩

end Process

/-! ## Releasing a packet -/

section Release

theorem countOut_ibs : (s.countOut a).ibs b =
    if b = a then { s.ibs a with packetCount := ((s.ibs a).packetCount + 65535) % 65536 } else s.ibs b := by
  simp only [countOut]
  split <;> exact ibs_setIb _

theorem countOut_ibUse : (s.countOut a).ibUse =
    if ((s.ibs a).packetCount + 65535) % 65536 = 0 ∧ (s.ibs a).canRelease then s.ibUse.erase a else s.ibUse := by
  simp only [countOut, ibs_setIb_self]
  split <;> rfl

@[simp] theorem countOut_bufs : (s.countOut a).bufs = s.bufs := by
  simp only [countOut]
  split <;> rfl

@[simp] theorem countOut_inBuf : (s.countOut a).inBuf = s.inBuf := by
  simp only [countOut]
  split <;> rfl

@[simp] theorem countOut_queue : (s.countOut a).queue = s.queue := by
  simp only [countOut]
  split <;> rfl

@[simp] theorem countOut_next : (s.countOut a).next = s.next := by
  funext b
  simp only [next, countOut_ibs]
  split <;> simp_all

theorem countOut_bufUse : (s.countOut a).bufUse =
    if ((s.ibs a).packetCount + 65535) % 65536 = 0 ∧ (s.ibs a).canRelease then s.bufUse.erase (s.ibs a).buf
    else s.bufUse := by
  simp only [countOut, ibs_setIb_self]
  split
  · simp only [releaseInBuffer, ibs_setIb_self]
    rfl
  · rfl

@[simp] theorem countOut_buf : ((s.countOut a).ibs b).buf = (s.ibs b).buf := by
  rw [countOut_ibs]
  split <;> simp_all

@[simp] theorem countOut_offset : ((s.countOut a).ibs b).offset = (s.ibs b).offset := by
  rw [countOut_ibs]
  split <;> simp_all

@[simp] theorem countOut_canRelease : ((s.countOut a).ibs b).canRelease = (s.ibs b).canRelease := by
  rw [countOut_ibs]
  split <;> simp_all

theorem countOut_packetCount : ((s.countOut a).ibs b).packetCount =
    if b = a then ((s.ibs a).packetCount + 65535) % 65536 else (s.ibs b).packetCount := by
  rw [countOut_ibs]
  split <;> rfl

/-- Counting out of `b` frees no buffer before the parser. -/
def SafeCountOut (s : Reader) (b : IbPtr) : Prop :=
  s.Reachable b → (s.ibs b).canRelease = true → (s.ibs b).packetCount ≠ 1

/-- Releasing the packet frees no buffer before the parser: neither its buffer nor the next one is a buffer that can be
reached from `pr_InBuf`, has `ib_CanRelease` set and counts this one packet only. -/
def SafeRelease (s : Reader) (ip : InPacket) : Prop :=
  s.SafeCountOut ip.inBuf ∧ ∀ b, s.next ip.inBuf = some b → s.SafeCountOut b

theorem reachable_iff (hc : Chain s.next s.inBuf M) : s.Reachable a ↔ a ∈ M :=
  ⟨fun ⟨_, hl, ha⟩ => hl.unique hc ▸ ha, fun ha => ⟨M, hc, ha⟩⟩

theorem Standing.countOut (st : s.Standing M) (hsafe : s.SafeCountOut b) : (s.countOut b).Standing M := by
  have hchain : Chain (s.countOut b).next (s.countOut b).inBuf M := by simpa using st.2
  refine ⟨⟨⟨_, hchain⟩, fun a ha => ?_, fun a ha => ?_, fun a ha => ?_, fun a ha => ?_⟩, hchain⟩
  · rw [countOut_ibUse]
    split
    · rename_i hfree
      have hne : a ≠ b := by
        rintro rfl
        have := st.1.count_lt a ha
        exact hsafe ((reachable_iff st.2).2 ha) hfree.2 (by omega)
      exact (List.mem_erase_of_ne hne).2 (st.1.live a ha)
    · exact st.1.live a ha
  · rw [countOut_offset]
    exact st.1.even a ha
  · rw [bytes, countOut_buf, countOut_bufs]
    exact st.1.bytes_le a ha
  · have := st.1.count_lt a ha
    rw [countOut_packetCount]
    split <;> omega

/-- Counting out of one buffer is no matter for another. -/
theorem SafeCountOut.countOut (hsafe : s.SafeCountOut b) (hne : b ≠ a) : (s.countOut a).SafeCountOut b := by
  rintro ⟨l, hc, hm⟩ hrel
  rw [countOut_next, countOut_inBuf] at hc
  rw [countOut_canRelease] at hrel
  rw [countOut_packetCount, if_neg hne]
  exact hsafe ⟨l, hc, hm⟩ hrel

/-- A buffer before the parser is not its own next. -/
theorem ne_of_next (hc : Chain s.next s.inBuf M) (ha : a ∈ M) (hn : s.next a = some b) : b ≠ a := by
  rintro rfl
  obtain ⟨pre, post, rfl⟩ := List.append_of_mem ha
  have hsuf := hc.suffix
  rw [Chain.cons_iff, hn] at hsuf
  obtain ⟨post', rfl, -⟩ := hsuf.2.of_some
  have := hc.suffix.nodup
  simp at this

/-- **A safe release** keeps the buffers before the parser. -/
theorem Standing.release {ip : InPacket} (st : s.Standing M) (hsafe : s.SafeRelease ip) :
    (s.releaseInPacket ip).Standing M := by
  have st' := st.countOut hsafe.1
  simp only [releaseInPacket, countOut_next]
  cases hn : s.next ip.inBuf with
  | none => exact st'
  | some b =>
    by_cases hm : b ∈ M
    · refine st'.countOut ((hsafe.2 b hn).countOut ?_)
      rintro rfl
      exact ne_of_next st.2 hm hn rfl
    · exact st'.countOut fun hr => absurd ((reachable_iff st'.2).1 hr) hm

section

variable (s) (ip : InPacket)

@[simp] theorem releaseInPacket_bufs : (s.releaseInPacket ip).bufs = s.bufs := by
  simp only [releaseInPacket]
  split <;> simp

@[simp] theorem releaseInPacket_queue : (s.releaseInPacket ip).queue = s.queue := by
  simp only [releaseInPacket]
  split <;> simp

@[simp] theorem releaseInPacket_next : (s.releaseInPacket ip).next = s.next := by
  simp only [releaseInPacket]
  split <;> simp

@[simp] theorem releaseInPacket_inBuf : (s.releaseInPacket ip).inBuf = s.inBuf := by
  simp only [releaseInPacket]
  split <;> simp

@[simp] theorem releaseInPacket_buf : ((s.releaseInPacket ip).ibs a).buf = (s.ibs a).buf := by
  simp only [releaseInPacket]
  split <;> simp

@[simp] theorem releaseInPacket_offset : ((s.releaseInPacket ip).ibs a).offset = (s.ibs a).offset := by
  simp only [releaseInPacket]
  split <;> simp

end

end Release

end Reader

namespace Rx

open Reader

/-- A release meets its condition; reads and dequeues have none. -/
def SafeStep (x : Rx) : Event → Prop
  | .release i => ∀ ip, x.held[i]? = some ip → x.rd.SafeRelease ip
  | _ => True

/-- Between events the parser stands on a chain of buffers in use. -/
def Sound (x : Rx) : Prop :=
  (∃ M, x.rd.Standing M) ∧ ∀ b, x.readBuffer = some b → (x.rd.bufs b).offset ≤ bufferSize

variable {al : Alloc} {x x' : Rx} {fuel : Nat}

theorem sound_beginRead (h : x.Sound) : (srvBeginRead al x).Sound := by
  obtain ⟨⟨M, st⟩, hb⟩ := h
  obtain hx | ⟨c, -, hx⟩ := beginRead_cases al x
  · rw [hx]
    exact ⟨⟨M, st⟩, hb⟩
  · rw [hx]
    refine ⟨⟨M, ⟨st.1.chain, st.1.live, st.1.even, fun a ha => ?_, st.1.count_lt⟩, st.2⟩, ?_⟩
    · show ((x.rd.allocateBuffer c).bufs (x.rd.ibs a).buf).offset ≤ _
      by_cases hc : (x.rd.ibs a).buf = c
      · rw [hc, bufs_allocateBuffer_self]
        exact Nat.zero_le _
      · rw [bufs_allocateBuffer_of_ne hc]
        exact st.1.bytes_le a ha
    · rintro b ⟨⟩
      rw [bufs_allocateBuffer_self]
      exact Nat.zero_le _

theorem sound_start (al : Alloc) (ibs : IbPtr → InBuffer) (bufs : BufPtr → Buffer) : (start al ibs bufs).Sound :=
  sound_beginRead ⟨⟨[], ⟨⟨none, rfl⟩, fun a ha => (by cases ha), fun a ha => (by cases ha), fun a ha => (by cases ha),
    fun a ha => (by cases ha)⟩, rfl⟩, fun b hb => (by cases hb)⟩

/-- **Every safe event** keeps the chain. -/
theorem sound_step {e : Event} (h : x.Sound) (hok : x.SafeStep e) (hs : x.step fuel e = some x') : x'.Sound := by
  obtain ⟨⟨M, st⟩, hb⟩ := h
  cases e with
  | receive al bs =>
    obtain ⟨-, rfl⟩ | ⟨b, rd, -, hrb, hfit, hp, rfl⟩ := receive_cases hs
    · exact ⟨⟨M, st⟩, hb⟩
    · have hfill : ((x.rd.fill b bs).bufs b).offset ≤ bufferSize := by
        rw [bufs_fill_self]
        exact hfit
      obtain ⟨hst, hbufs⟩ := standing_process (st.fill hfit) hfill hp
      refine sound_beginRead ⟨hst, fun c hc => ?_⟩
      cases hrb.symm.trans hc
      rw [hbufs]
      exact hfill
  | dequeue =>
    cases hs
    obtain ⟨q, n, hd, -⟩ := dequeue_cases x.rd
    rw [hd]
    exact ⟨⟨M, ⟨st.1.chain, st.1.live, st.1.even, st.1.bytes_le, st.1.count_lt⟩, st.2⟩, hb⟩
  | release i =>
    simp only [step] at hs
    split at hs
    · cases hs
    · rename_i ip hip
      cases hs
      refine ⟨⟨M, st.release (hok ip hip)⟩, fun b hrb => ?_⟩
      show ((x.rd.releaseInPacket ip).bufs b).offset ≤ _
      rw [releaseInPacket_bufs]
      exact hb b hrb

theorem sound_run {al : Alloc} {ibs : IbPtr → InBuffer} {bufs : BufPtr → Buffer} {es : List Event}
    (hok : Along SafeStep (step fuel) (start al ibs bufs) es)
    (hx : runs (step fuel) (start al ibs bufs) es = some x) : x.Sound :=
  runs_inv Sound (fun _ _ _ h ho hs => sound_step h ho hs) (sound_start al ibs bufs) hok hx

/-- **The parser never loses a buffer that it still has to read**, whatever the bytes and the reads, in every run in
which no release takes the last packet of such a buffer. -/
theorem parser_buffers_in_use (al : Alloc) (ibs : IbPtr → InBuffer) (bufs : BufPtr → Buffer) (es : List Event)
    (fuel : Nat) (x : Rx) (hok : Along SafeStep (step fuel) (start al ibs bufs) es)
    (hx : runs (step fuel) (start al ibs bufs) es = some x) : ∀ a, x.rd.Reachable a → a ∈ x.rd.ibUse := by
  obtain ⟨⟨M, st⟩, -⟩ := sound_run hok hx
  exact fun a ha => st.1.live a ((reachable_iff st.2).1 ha)

/-! ## A packet that ends its buffer -/

/-- A payload that makes its packet as long as a buffer. -/
def fullPayload : List UInt8 := List.replicate 4082 0

theorem length_fullPayload : fullPayload.length = 4082 := List.length_replicate

/-- A packet of 4096 bytes. -/
def fullPacket : WirePacket := .sealed 1 1 1 fullPayload (by rw [length_fullPayload])

theorem size_fullPacket : fullPacket.size = 4096 := by rw [fullPacket, WirePacket.size_sealed, length_fullPayload]

theorem length_fullPacket : fullPacket.bytes.length = 4096 := by rw [WirePacket.length_bytes, size_fullPacket]

/-- The server before its first read, on memory that holds zeros. -/
def fresh : Rx := start .unbounded (fun _ => default) (fun _ => default)

/-- The full packet is queued, alone, and the parser is at the end of the first buffer. -/
structure TookFull (rd : Reader) (ip : InPacket) : Prop where
  queue : rd.queue = [ip]
  queueSize : rd.queueSize = 1
  ip_inBuf : ip.inBuf = 1
  ip_inBuf2 : ip.inBuf2 = none
  inBuf : rd.inBuf = some 1
  ibUse : rd.ibUse = [1]
  bufUse : rd.bufUse = [1]
  bytes : (rd.bufs 1).offset = 4096
  ib : rd.ibs 1 = { buf := 1, next := none, offset := 4096, packetCount := 1, canRelease := false }

/-- The read of the full packet. -/
theorem full_received : ∃ rd ip, TookFull rd ip ∧ ∀ fuel ≥ 2,
    step fuel fresh (.receive .unbounded fullPacket.bytes) = some ⟨rd.allocateBuffer 2, some 2, []⟩ := by
  have hlen := length_fullPacket
  have hne : fullPacket.bytes ≠ [] := fun h => by
    rw [h] at hlen
    cases hlen
  have hS := Mem.holds_ofList fullPacket.bytes
  have v₀ : View fresh.rd (Mem.ofList fullPacket.bytes) 0 0 none 0 [] :=
    ⟨rfl, ⟨Nat.le_refl 0, by decide⟩, rfl, rfl, fun a ha => (by cases ha), fun a ha => (by cases ha)⟩
  have ho₀ : fresh.rd.Owned [] := ⟨fun a ha => (by cases ha), fun a ha => (by cases ha), List.nodup_nil⟩
  have hlast : 0 < 0 → ∃ a, [].getLast? = some a ∧ (fresh.rd.ibs a).buf = 1 := fun h => absurd h (lt_irrefl 0)
  obtain ⟨t, l, happ, hbufs, -, -, v, -⟩ := view_arrive v₀ ho₀ (b := 1) hlast
    Alloc.unbounded_succeeds.inBuffer List.mem_cons_self rfl (fun h => absurd rfl h) (fun _ a ha => (by cases ha)) hS hne
    (by rw [hlen]; decide)
  have hnew : ∀ fuel, 0 < fuel → (fresh.rd.fill 1 fullPacket.bytes).appendBuffer fuel .unbounded 1 =
      some ((fresh.rd.fill 1 fullPacket.bytes).appended [] 1 1, true) := fun fuel hf =>
    append_new rfl hf (fun a ha => (by cases ha)) rfl (fun ha => (by cases ha))
  obtain rfl : t = _ := congrArg Prod.fst (Option.some.inj ((happ 1 Nat.one_pos).symm.trans (hnew 1 Nat.one_pos)))
  have hoff : (fresh.rd.bufs 1).offset = 0 := rfl
  generalize ht : (fresh.rd.fill 1 fullPacket.bytes).appended [] 1 1 = t at *
  dsimp only at v hbufs
  have hinBuf : t.inBuf = some 1 := ht ▸ rfl
  have hib : t.ibs 1 = { buf := 1, next := none, offset := 0, packetCount := 0, canRelease := false } := ht ▸ rfl
  rw [hinBuf, hlen] at v
  obtain ⟨r, rfl, -⟩ := v.chain.of_some
  obtain ⟨h, d, hf, sp, hh, hsize, hturn⟩ := turn_packet v hS .unbounded (by rw [size_fullPacket]) rfl
  have hd : d.ib2 = none := by
    obtain ⟨h₁, -⟩ | ⟨h₁, h₂, -⟩ := hf.looked
    · exact h₁
    · rw [← h₂, next, hib] at h₁
      cases h₁
  -- the packet is taken, and nothing is left
  have hs := accept_sameLayout t 1 h d
  have hoff' : ((t.accept 1 h d).1.ibs 1).offset = 4096 := by
    rw [accept_offset, hd, Option.getD_none, if_pos rfl, sp.one hd, hsize, size_fullPacket, hib]
    rfl
  have hcount : ((t.accept 1 h d).1.ibs 1).packetCount = 1 := by
    rw [accept_packetCount t 1 h d (by simp [hd]), if_pos (.inl rfl), hib]
    rfl
  have hib1 : (t.accept 1 h d).2 = none := by
    rw [accept_ib1, hd, Option.getD_none, if_pos hoff', next, hib]
  have hbytes : ((t.accept 1 h d).1.bufs 1).offset = 4096 := by
    rw [hs.bufs, hbufs, bufs_fill_self, hoff, hlen]
  have heta : ∀ v : InBuffer, v.buf = 1 → v.next = none → v.offset = 4096 → v.packetCount = 1 → v.canRelease = false →
      v = { buf := 1, next := none, offset := 4096, packetCount := 1, canRelease := false } := by
    rintro ⟨⟩ rfl rfl rfl rfl rfl
    rfl
  refine ⟨(t.accept 1 h d).1, newPacket 1 h d, ⟨?_, ?_, rfl, hd, ?_, ?_, ?_, hbytes, ?_⟩, fun fuel hfuel => ?_⟩
  · rw [accept_queue, ← ht]
    rfl
  · rw [accept_queueSize, ← ht]
    rfl
  · rw [accept_inBuf, hd, Option.getD_none]
  · rw [hs.ibUse, ← ht]
    rfl
  · rw [hs.bufUse, ← ht]
    rfl
  · exact heta _ ((hs.buf 1).trans (by rw [hib])) ((hs.next 1).trans (by rw [hib])) hoff' hcount
      ((hs.canRelease 1).trans (by rw [hib]))
  · obtain ⟨f, rfl⟩ : ∃ f, fuel = f + 2 := ⟨fuel - 2, by omega⟩
    have hend : turn .unbounded (t.accept 1 h d) = some (.done (t.accept 1 h d).1) := by
      generalize t.accept 1 h d = u at hib1
      obtain ⟨u, p⟩ := u
      cases hib1
      rfl
    have hproc : (fresh.rd.fill 1 fullPacket.bytes).processBuffer (f + 2) .unbounded 1 = some (t.accept 1 h d).1 := by
      rw [processBuffer_of_append (hnew (f + 2) (by omega)), if_pos rfl]
      dsimp only
      rw [hinBuf, Loop.run_again hturn, Loop.run_done hend]
    have hbuf : Alloc.unbounded.buffer (t.accept 1 h d).1 = some 2 := by
      show some ((t.accept 1 h d).1.bufUse.foldr max 0 + 1) = some 2
      rw [hs.bufUse, ← ht]
      rfl
    show fresh.srvReceiveFromRemote (f + 2) .unbounded fullPacket.bytes = _
    simp only [srvReceiveFromRemote, if_neg hne, show fresh.readBuffer = some 1 from rfl, hoff, hlen, hproc,
      Option.map_some, srvBeginRead, Option.all_some, hbytes, hbuf]
    rfl

/-- The full packet is released before another byte comes. -/
def earlyRelease : List Event := [.receive .unbounded fullPacket.bytes, .dequeue, .release 0]

/-- No other buffer follows the packet's, which may not be freed yet. -/
theorem early_released : ∃ (x₁ x₂ x₃ : Rx) (ip : InPacket),
    step 2 fresh (.receive .unbounded fullPacket.bytes) = some x₁ ∧ step 2 x₁ .dequeue = some x₂ ∧
      step 2 x₂ (.release 0) = some x₃ ∧ x₂.held = [ip] ∧ x₂.rd.next ip.inBuf = none ∧
      (x₂.rd.ibs ip.inBuf).canRelease = false := by
  obtain ⟨rd, ip, tf, hstep⟩ := full_received
  let u : Reader := { rd.allocateBuffer 2 with queue := [], queueSize := 0 }
  have hib : u.ibs 1 = _ := tf.ib
  have hd : step 2 ⟨rd.allocateBuffer 2, some 2, []⟩ .dequeue = some ⟨u, some 2, [ip]⟩ := by
    simp only [step, dequeueInPacket, show (rd.allocateBuffer 2).queue = [ip] from tf.queue,
      show (rd.allocateBuffer 2).queueSize = 1 from tf.queueSize]
    rfl
  refine ⟨_, _, ⟨u.releaseInPacket ip, some 2, []⟩, ip, hstep 2 (Nat.le_refl 2), hd, rfl, rfl, ?_, ?_⟩
  · rw [tf.ip_inBuf, next, hib]
  · rw [tf.ip_inBuf, hib]

/-- A condition on releases that the release meets. -/
theorem early_release_along (ok : Rx → Event → Prop) {x₁ x₂ x₃ : Rx}
    (h₁ : step 2 fresh (.receive .unbounded fullPacket.bytes) = some x₁) (h₂ : step 2 x₁ .dequeue = some x₂)
    (h₃ : step 2 x₂ (.release 0) = some x₃) (ok₁ : ∀ al bs, ok fresh (.receive al bs)) (ok₂ : ∀ x, ok x .dequeue)
    (ok₃ : ok x₂ (.release 0)) :
    Along ok (step 2) fresh earlyRelease ∧ runs (step 2) fresh earlyRelease = some x₃ := by
  refine ⟨⟨ok₁ _ _, fun y₁ hy₁ => ⟨ok₂ _, fun y₂ hy₂ => ⟨?_, fun _ _ => trivial⟩⟩⟩, ?_⟩
  · cases h₁.symm.trans hy₁
    cases h₂.symm.trans hy₂
    exact ok₃
  · rw [earlyRelease, runs_cons h₁, runs_cons h₂, runs_cons h₃, runs_nil]

/-- **A safe release.** -/
theorem parser_buffers_in_use_early_release : ∃ x : Rx, runs (step 2) fresh earlyRelease = some x ∧
    ∀ a, x.rd.Reachable a → a ∈ x.rd.ibUse := by
  obtain ⟨x₁, x₂, x₃, ip, h₁, h₂, h₃, hheld, hnext, hrel⟩ := early_released
  obtain ⟨hok, hx⟩ := early_release_along SafeStep h₁ h₂ h₃ (fun _ _ => trivial) (fun _ => trivial) (by
    intro q hq
    rw [hheld] at hq
    cases hq
    exact ⟨fun _ h => absurd (hrel.symm.trans h) (by decide), fun b hb => absurd (hnext.symm.trans hb) nofun⟩)
  exact ⟨x₃, hx, parser_buffers_in_use .unbounded (fun _ => default) (fun _ => default) _ 2 x₃ hok hx⟩

/-- The full packet is released after one more byte has come. -/
def lateRelease : List Event := [.receive .unbounded fullPacket.bytes, .receive .unbounded [65], .dequeue, .release 0]

/-- The packet was in the first buffer only, which the parser has not left, and the second buffer has no packet. -/
theorem full_released : ∃ x : Rx, (∀ fuel ≥ 2, runs (step fuel) fresh lateRelease = some x) ∧
    x.unreleased = [] ∧ Chain x.rd.next x.rd.inBuf [1, 2] ∧ x.rd.ibUse = [2] ∧ (x.rd.ibs 2).packetCount = 65535 := by
  obtain ⟨rd, ip, tf, hstep⟩ := full_received
  have hib := tf.ib
  let t : Reader := ((rd.allocateBuffer 2).fill 2 [65]).appended [1] 2 2
  have hoff : ((rd.allocateBuffer 2).bufs 2).offset = 0 := by rw [bufs_allocateBuffer_self]
  have hchain : Chain ((rd.allocateBuffer 2).fill 2 [65]).next ((rd.allocateBuffer 2).fill 2 [65]).inBuf [1] :=
    ⟨tf.inBuf, congrArg InBuffer.next hib⟩
  have h₁ : t.ibs 1 = { buf := 1, next := some 2, offset := 4096, packetCount := 1, canRelease := true } := by
    show (((rd.allocateBuffer 2).fill 2 [65]).appended [1] 2 2).ibs 1 = _
    rw [ibs_appended_on (by decide) List.mem_cons_self]
    show ({ rd.ibs 1 with canRelease := true, next := _ } : InBuffer) = _
    rw [hib]
    rfl
  have h₂ : t.ibs 2 = { buf := 2, next := none, offset := 0, packetCount := 0, canRelease := false } := ibs_appended_new
  have hbytes : t.bytes 1 = 4096 := by
    rw [bytes, h₁]
    show (((rd.allocateBuffer 2).fill 2 [65]).bufs 1).offset = _
    rw [bufs_fill_of_ne (by decide), bufs_allocateBuffer_of_ne (by decide), tf.bytes]
  have hbytes₂ : t.bytes 2 = 1 := by
    rw [bytes, h₂]
    show (((rd.allocateBuffer 2).fill 2 [65]).bufs 2).offset = _
    rw [bufs_fill_self, hoff]
    rfl
  have hnext : t.next 1 = some 2 := congrArg InBuffer.next h₁
  have hinBuf : t.inBuf = some 1 := by
    show some (rd.inBuf.getD 2) = _
    rw [tf.inBuf]
    rfl
  -- the parser waits for the rest of the header
  have hturn : turn .unbounded (t, some 1) = some (.done t) := by
    simp only [turn, readHeader, hbytes, hbytes₂, hnext, h₁]
    rfl
  have happ : ∀ fuel ≥ 2, ((rd.allocateBuffer 2).fill 2 [65]).appendBuffer fuel .unbounded 2 = some (t, true) :=
    fun fuel hf => append_new hchain hf
      (fun a ha => by
        rw [List.mem_singleton.1 ha]
        show (rd.ibs 1).buf ≠ 2
        rw [hib]
        decide)
      (show some (rd.ibUse.foldr max 0 + 1) = some 2 by rw [tf.ibUse]; rfl) (by decide)
  have hstep₂ : ∀ fuel ≥ 2, step fuel ⟨rd.allocateBuffer 2, some 2, []⟩ (.receive .unbounded [65]) =
      some ⟨t, some 2, []⟩ := fun fuel hf => by
    obtain ⟨f, rfl⟩ : ∃ f, fuel = f + 1 := ⟨fuel - 1, by omega⟩
    have hproc : ((rd.allocateBuffer 2).fill 2 [65]).processBuffer (f + 1) .unbounded 2 = some t := by
      rw [processBuffer_of_append (happ (f + 1) hf), if_pos rfl]
      dsimp only
      rw [hinBuf, Loop.run_done hturn]
    have hroom : (t.bufs 2).offset ≠ bufferSize := by
      have := hbytes₂
      rw [bytes, h₂] at this
      rw [this]
      decide
    show Rx.srvReceiveFromRemote (f + 1) .unbounded ⟨rd.allocateBuffer 2, some 2, []⟩ [65] = _
    simp only [srvReceiveFromRemote, hoff, hproc, Option.map_some, beginRead_room [] hroom]
    rfl
  let u : Reader := { t with queue := [], queueSize := 0 }
  have hdeq : t.dequeueInPacket = (some ip, u) := by
    have hq : t.queue = [ip] := tf.queue
    have hn : t.queueSize = 1 := tf.queueSize
    simp only [dequeueInPacket, hq, hn]
    rfl
  have hrel : u.releaseInPacket ip = (u.countOut 1).countOut 2 := by
    simp only [releaseInPacket, countOut_next, tf.ip_inBuf, show u.next 1 = some 2 from hnext]
  have huse : u.ibUse = [2, 1] := congrArg (2 :: ·) tf.ibUse
  have huse₁ : (u.countOut 1).ibUse = [2] := by
    rw [countOut_ibUse, show u.ibs 1 = _ from h₁, if_pos (by decide), huse]
    rfl
  have h₂' : (u.countOut 1).ibs 2 = _ := (countOut_ibs.trans (if_neg (by decide))).trans h₂
  have hfin : ((u.countOut 1).countOut 2).next = t.next := by rw [countOut_next, countOut_next]; rfl
  refine ⟨⟨(u.countOut 1).countOut 2, some 2, []⟩, fun fuel hf => ?_, ?_, ?_, ?_, ?_⟩
  · have hd : step fuel ⟨t, some 2, []⟩ .dequeue = some ⟨u, some 2, [ip]⟩ := by
      simp only [step, hdeq]
      rfl
    have hr : step fuel ⟨u, some 2, [ip]⟩ (.release 0) = some ⟨(u.countOut 1).countOut 2, some 2, []⟩ := by
      rw [← hrel]
      rfl
    rw [lateRelease, runs_cons (hstep fuel hf), runs_cons (hstep₂ fuel hf), runs_cons hd, runs_cons hr, runs_nil]
  · show [] ++ ((u.countOut 1).countOut 2).queue = []
    rw [countOut_queue, countOut_queue]
    rfl
  · dsimp only
    rw [hfin, countOut_inBuf, countOut_inBuf]
    exact ⟨hinBuf, hnext, congrArg InBuffer.next h₂⟩
  · dsimp only
    rw [countOut_ibUse, h₂', if_neg (by decide), huse₁]
  · dsimp only
    rw [countOut_packetCount, if_pos rfl, h₂']
    rfl

/-- One byte more than the first of two full packets. -/
theorem received_lateRelease : received lateRelease <+: [fullPacket, fullPacket].flatMap WirePacket.bytes := by
  obtain ⟨rest, hr⟩ : ∃ rest, fullPacket.bytes = 65 :: rest := ⟨_, rfl⟩
  refine ⟨rest, ?_⟩
  show (fullPacket.bytes ++ ([65] ++ [])) ++ rest = _
  rw [List.append_nil, List.append_assoc, List.singleton_append, ← hr]
  simp

theorem succeeds_lateRelease (al : Alloc) (bs : List UInt8) (h : .receive al bs ∈ lateRelease) : al.Succeeds := by
  simp only [lateRelease, List.mem_cons, Event.receive.injEq, reduceCtorEq, List.not_mem_nil, or_false] at h
  rcases h with ⟨rfl, -⟩ | ⟨rfl, -⟩ <;> exact Alloc.unbounded_succeeds

/-- **The buffer that `pr_InBuf` designates can be freed**: after a packet that ends its buffer, one more byte, and the
release of the packet. -/
theorem late_release_frees_parser_buffer :
    ∃ (ps : List WirePacket) (es : List Event) (x : Rx), received es <+: ps.flatMap WirePacket.bytes ∧
      (∀ al bs, .receive al bs ∈ es → al.Succeeds) ∧ (∀ fuel ≥ 2, runs (step fuel) fresh es = some x) ∧
      ∃ a, x.rd.inBuf = some a ∧ a ∉ x.rd.ibUse := by
  obtain ⟨x, hx, -, hc, hu, -⟩ := full_released
  refine ⟨[fullPacket, fullPacket], lateRelease, x, received_lateRelease, succeeds_lateRelease, hx, 1, hc.head, ?_⟩
  rw [hu]
  decide

end Rx

end AmiPiBorg
