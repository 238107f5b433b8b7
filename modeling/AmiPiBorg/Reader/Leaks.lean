import AmiPiBorg.Reader.Ends
import AmiPiBorg.Reader.Counts
import AmiPiBorg.Reader.Resync

/-!
# Buffers that are left behind

A buffer is freed only when a packet is released that was counted into it. So none may be left behind without packets:
`pr_InBuf` must not move past one. It does in two places, where `badData` goes to the next buffer, and where a packet is
accepted behind a buffer that the parser has left because of a garbage header. A turn that does neither is `Orderly`,
and along runs of orderly turns every buffer in use is before the parser or has packets that are not released
(`inBuffers_freed`). `noise_leaks_buffer` is a run where a buffer is lost.
-/

set_option autoImplicit false

namespace AmiPiBorg

open ProgLib

namespace Reader

/-- The parser is at the end of a full buffer, behind which there is another. -/
def UsedUp (s : Reader) (a : IbPtr) : Prop :=
  s.bytes a ≤ (s.ibs a).offset ∧ s.bytes a = bufferSize ∧ (s.next a).isSome

/-- Every buffer from `pr_InBuf` up to `a` has packets. -/
def OccupiedTo (s : Reader) (a : IbPtr) : Prop :=
  ∀ l r, Chain s.next s.inBuf (l ++ a :: r) → ∀ c ∈ l, (s.ibs c).packetCount ≠ 0

/-- The turn moves `pr_InBuf` past no buffer without packets: it does not give up a header at the end of a full buffer,
nor accept a packet behind a buffer that has none. -/
structure Orderly (al : Alloc) (t : Reader × Option IbPtr) : Prop where
  skip : ∀ a ib2, t.2 = some a → t.1.GivenUp a ib2 → ¬t.1.UsedUp (ib2.getD a)
  accept : ∀ a h d, t.2 = some a → t.1.Accepted al a h d → t.1.OccupiedTo a

/-- No buffer in use is lost: those that the parser has left have packets, and will be freed with the last of them. -/
structure Tidy (T : IbPtr → Nat) (s : Reader) : Prop where
  marked : ∀ a, s.Reachable a → (s.next a).isSome → (s.ibs a).canRelease = true
  kept : ∀ a ∈ s.ibUse, s.Reachable a ∨ 0 < T a ∧ (s.ibs a).canRelease = true
  nodup : s.bufUse.Nodup

variable {s s' : Reader} {al : Alloc} {T T' : IbPtr → Nat} {rb : Option BufPtr} {L : List IbPtr} {a b c : IbPtr}
  {p : Option IbPtr} {h : Header} {d : Located} {held : List InPacket}

theorem skip_inBuf_of_not (h : ¬s.UsedUp a) : (s.skip a).inBuf = s.inBuf := by
  unfold skip
  split
  · rfl
  · split
    · rename_i h₁ h₂
      exact absurd ⟨Nat.not_lt.1 h₁, h₂⟩ h
    · rfl

/-- A turn that leaves `pr_InBuf` where it is. -/
theorem Tidy.layout (t : Tidy T s) (hs : SameLayout s s') (hi : s'.inBuf = s.inBuf) : Tidy T s' := by
  have hreach : ∀ a, s'.Reachable a ↔ s.Reachable a := fun a => by rw [Reachable, Reachable, hs.next_eq, hi]
  refine ⟨fun a ha hn => ?_, fun a ha => ?_, by rw [hs.bufUse]; exact t.nodup⟩
  · rw [hs.next_eq] at hn
    rw [hs.canRelease]
    exact t.marked a ((hreach a).1 ha) hn
  · rw [hreach, hs.canRelease]
    exact t.kept a (hs.ibUse ▸ ha)

/-- What lies before the buffer in which an accepted packet ends: the buffer it starts in, and those before that. -/
theorem Accepted.left (acc : s.Accepted al c h d) (hc : Chain s.next s.inBuf L) (hp : s.At L (some c)) {r : List IbPtr}
    (hr : d.ib2.getD c :: r <:+ L) (hcr : Chain s.next (s.next (d.ib2.getD c)) r) (ha : a ∈ L)
    (hne : a ∉ d.ib2.getD c :: r) :
    (s.next a).isSome ∧ (a = c ∨ ∃ l rc, Chain s.next s.inBuf (l ++ c :: rc) ∧ a ∈ l) := by
  constructor
  · obtain ⟨pre, rfl⟩ := hr
    obtain ⟨pre₁, pre₂, rfl⟩ := List.append_of_mem ((List.mem_append.1 ha).resolve_right hne)
    rw [List.append_assoc, List.cons_append] at hc
    rw [hc.link]
    cases pre₂ <;> rfl
  · obtain ⟨rc, ⟨l, rfl⟩, hcc⟩ := hp.cons
    refine (List.mem_append.1 ha).elim (fun hl => .inr ⟨l, rc, hc, hl⟩) fun hm => ?_
    refine (List.mem_cons.1 hm).imp_right fun hrc => absurd ?_ hne
    obtain ⟨hd, -⟩ | ⟨h₁, h₂, -⟩ := acc.found.looked
    · rw [hd, Option.getD_none] at hcr ⊢
      rwa [hcr.unique hcc]
    · obtain ⟨e, he⟩ := Option.isSome_iff_exists.1 h₁
      rw [he] at h₂
      rw [he, Option.getD_some] at hcr ⊢
      have hre : rc = e :: r := hcc.unique (by rw [h₂]; exact ⟨rfl, hcr⟩)
      rwa [← hre]

/-- **A packet is accepted** behind buffers that have packets: what is left behind has packets. -/
theorem Tidy.accept (t : Tidy T s) (k : Kept T rb s L) (hc : Chain s.next s.inBuf L) (hp : s.At L (some c))
    (acc : s.Accepted al c h d) (hocc : s.OccupiedTo c) {r : List IbPtr} (hr : d.ib2.getD c :: r <:+ L)
    (hcr : Chain s.next (s.next (d.ib2.getD c)) r) :
    Tidy (fun a => T a + if (newPacket c h d).CountedIn a then 1 else 0) (s.accept c h d).1 := by
  have hs := accept_sameLayout s c h d
  have hchain : Chain (s.accept c h d).1.next (s.accept c h d).1.inBuf (d.ib2.getD c :: r) := by
    rw [accept_inBuf, hs.next_eq]
    exact ⟨rfl, hcr⟩
  refine ⟨fun a ha hn => ?_, fun a ha => ?_, by rw [hs.bufUse]; exact t.nodup⟩
  · rw [hs.next_eq] at hn
    rw [hs.canRelease]
    exact t.marked a ((reachable_iff hc).2 (hr.subset ((reachable_iff hchain).1 ha))) hn
  · rw [hs.ibUse] at ha
    rw [hs.canRelease, reachable_iff hchain]
    obtain hreach | ⟨hpos, hcan⟩ := t.kept a ha
    · by_cases har : a ∈ d.ib2.getD c :: r
      · exact .inl har
      obtain ⟨hn, hleft⟩ := acc.left hc hp hr hcr ((reachable_iff hc).1 hreach) har
      refine .inr ⟨?_, t.marked a hreach hn⟩
      obtain rfl | ⟨l, rc, hl, hal⟩ := hleft
      · rw [if_pos (.inl rfl)]
        exact Nat.succ_pos _
      · have := hocc l rc hl a hal
        rw [k.exact a ha] at this
        omega
    · exact .inr ⟨by omega, hcan⟩

/-- What the loop keeps: the parser is on the chain from `pr_InBuf`. -/
def Treads (held : List InPacket) (rb : Option BufPtr) (t : Reader × Option IbPtr) : Prop :=
  ∃ L, Counted held rb t.1 L ∧ Chain t.1.next t.1.inBuf L ∧ t.1.At L t.2 ∧ Tidy (tally (held ++ t.1.queue)) t.1

/-- **An orderly turn** loses no buffer. -/
theorem treads_turn {t : Turn (Reader × Option IbPtr) Reader} (h : Treads held rb (s, p)) (hok : Orderly al (s, p))
    (ht : turn al (s, p) = some t) : t = .done s ∨ ∃ u, t = .again u ∧ Treads held rb u := by
  obtain ⟨L, k, hc, hp, tidy⟩ := h
  cases p with
  | none =>
    cases ht
    exact .inl rfl
  | some c =>
    obtain rfl | ⟨ib2, hg, rfl⟩ | ⟨h, d, acc, rfl⟩ := turn_cases ht
    · exact .inl rfl
    · have hb := hg.looked.at hp
      have hs := skip_sameLayout s (ib2.getD c)
      have hi := skip_inBuf_of_not (hok.skip c ib2 rfl hg)
      refine .inr ⟨_, badData_again (k.1.linked.bytes_le _ hb.mem), L, ⟨?_, ?_⟩, ?_, hb.congr hs, ?_⟩
      · rw [skip_queue]
        exact k.1.skip hb
      · rw [skip_queue]
        exact fun ip hip => (k.2 ip hip).layout hs
      · rw [hs.next_eq, hi]
        exact hc
      · rw [skip_queue]
        exact tidy.layout hs hi
    · obtain ⟨r, hr, hcr, -⟩ := acc.ends hp
      obtain hd | ⟨u, L', hu, k', hp'⟩ := counted_turn k hp ht
      · cases hd
      · cases hu
        obtain ⟨l, k'', hc''⟩ := k'.front
        refine .inr ⟨_, rfl, l, k'', hc'', ?_, ?_⟩
        · have hs := accept_sameLayout s c h d
          have hl : l = d.ib2.getD c :: r := hc''.unique (by
            rw [accept_inBuf, hs.next_eq]
            exact ⟨rfl, hcr⟩)
          rw [hl, accept_ib1]
          split
          · exact ⟨r, List.suffix_cons _ r, hs.next_eq ▸ hcr⟩
          · exact ⟨_, List.suffix_refl _, rfl, hs.next_eq ▸ hcr⟩
        · rw [accept_queue, ← List.append_assoc, tally_concat]
          exact tidy.accept k.1 hc hp acc (hok.accept c h d rfl acc) hr hcr

/-- The loop, of which every turn is orderly. -/
theorem treads_loop {fuel : Nat} {t : Reader × Option IbPtr} (h : Treads held rb t)
    (hok : ∀ u, Loop.Reach (turn al) t u → Orderly al u) (hr : Loop.run (turn al) fuel t = some s') :
    Treads held rb (s', s'.inBuf) := by
  refine Loop.run_inv (fun u => Loop.Reach (turn al) t u ∧ Treads held rb u) (fun s' => Treads held rb (s', s'.inBuf))
    ?_ ?_ ⟨.refl, h⟩ hr
  · rintro ⟨u, p⟩ v ⟨hu, h⟩ ht
    obtain hd | ⟨v', hv, h'⟩ := treads_turn h (hok _ hu) ht
    · cases hd
    · cases hv
      exact ⟨hu.step ht, h'⟩
  · rintro ⟨u, p⟩ r ⟨hu, h⟩ ht
    obtain hd | ⟨v', hv, -⟩ := treads_turn h (hok _ hu) ht
    · cases hd
      obtain ⟨L, k, hc, -, tidy⟩ := h
      exact ⟨L, k, hc, k.1.inBuf, tidy⟩
    · cases hv

/-! ## A call of `APB_ProcessBuffer` -/

section Process

variable {ib : IbPtr} {bs : List UInt8} {fuel : Nat}

/-- A new buffer at the end of the chain; those before it may be freed from now on. -/
theorem Tidy.appended (t : Tidy T s) (hc : Chain s.next s.inBuf L) (hib : ib ∉ s.ibUse) (hL : ib ∉ L) :
    Tidy T (s.appended L ib b) := by
  have hchain := chain_appended (b := b) hc hL
  refine ⟨fun a ha hn => ?_, fun a ha => ?_, t.nodup⟩
  · rw [reachable_iff hchain, List.mem_append, List.mem_singleton] at ha
    rcases ha with ha | rfl
    · rw [ibs_appended_on hL ha]
    · rw [next, ibs_appended_new] at hn
      cases hn
  · rw [reachable_iff hchain, List.mem_append, List.mem_singleton]
    rcases List.mem_cons.1 ha with rfl | ha₁
    · exact .inl (.inr rfl)
    · have hne : a ≠ ib := fun he => hib (he ▸ ha₁)
      rcases t.kept a ha₁ with h | ⟨hpos, hcan⟩
      · exact .inl (.inl ((reachable_iff hc).1 h))
      · refine .inr ⟨hpos, ?_⟩
        by_cases haL : a ∈ L
        · rw [ibs_appended_on hL haL]
        · rwa [ibs_appended_off hne haL]

/-- A call on the read buffer, all of whose turns are orderly. -/
theorem treads_process (k : Counted held (some b) s L) (hc : Chain s.next s.inBuf L)
    (tidy : Tidy (tally (held ++ s.queue)) s) (hb : (s.bufs b).offset ≤ bufferSize)
    (hok : ∀ t, s.ComesTo al b t → Orderly al t) (hp : s.processBuffer fuel al b = some s') :
    Treads held (some b) (s', s'.inBuf) ∧ ∀ a ∈ s.ibUse, a ∈ s'.ibUse := by
  obtain ⟨r, hr, hcases⟩ := append_cases al b hc k.1.linked.live
  have hp' := (processBuffer_of_append (hr _ (le_max_right fuel (L.length + 1)))).symm.trans
    (processBuffer_mono hp (le_max_left _ _))
  have hcomes : ∀ {q : Reader}, r = (q, true) → ∀ u, Loop.Reach (turn al) (q, q.inBuf) u → Orderly al u :=
    fun he u hu => hok u ⟨_, _, he ▸ hr _ (Nat.lt_succ_self _), hu⟩
  obtain ⟨rfl, -⟩ | ⟨rfl, -⟩ | ⟨ib, hib, hne, rfl⟩ := hcases
  · have hs := loop_sameLayout hp'
    exact ⟨treads_loop ⟨L, k, hc, k.1.inBuf, tidy⟩ (hcomes rfl) hp', fun a ha => hs.ibUse ▸ ha⟩
  · cases hp'
    exact ⟨⟨L, k, hc, k.1.inBuf, tidy⟩, fun a ha => ha⟩
  · have hL : ib ∉ L := fun hm => hib (k.1.linked.live ib hm)
    have k' := k.appended hc hib hne hb
    have hs := loop_sameLayout hp'
    exact ⟨treads_loop ⟨_, k', chain_appended hc hL, k'.1.inBuf, tidy.appended hc hib hL⟩ (hcomes rfl) hp',
      fun a ha => hs.ibUse ▸ List.mem_cons_of_mem ib ha⟩

end Process

/-! ## Releasing a packet -/

/-- **Counting out** frees a buffer that the parser has left with its last packet. -/
theorem Tidy.countOut (t : Tidy T s) (k : Kept T rb s L) (hT : 0 < T b) :
    Tidy (fun a => T a - if a = b then 1 else 0) (s.countOut b) := by
  have hreach : ∀ a, (s.countOut b).Reachable a ↔ s.Reachable a := fun a => by
    rw [Reachable, Reachable, countOut_next, countOut_inBuf]
  have hexact := k.exact b (k.live b hT)
  have hle := k.le b
  have hcount : ((s.ibs b).packetCount + 65535) % 65536 = T b - 1 := by omega
  have huse := countOut_ibUse (s := s) (a := b)
  rw [hcount] at huse
  refine ⟨fun a ha hn => ?_, fun a ha => ?_, ?_⟩
  · rw [countOut_next] at hn
    rw [countOut_canRelease]
    exact t.marked a ((hreach a).1 ha) hn
  · rw [hreach, countOut_canRelease]
    have haUse : a ∈ s.ibUse := by
      rw [huse] at ha
      split at ha
      · exact List.mem_of_mem_erase ha
      · exact ha
    refine (t.kept a haUse).imp_right fun ⟨hpos, hcan⟩ => ⟨?_, hcan⟩
    split
    · rename_i hab
      subst hab
      refine Nat.pos_of_ne_zero fun h0 => ?_
      rw [if_pos ⟨h0, hcan⟩] at huse
      exact (k.nodup.mem_erase_iff.1 (huse ▸ ha)).1 rfl
    · exact hpos
  · rw [countOut_bufUse]
    split
    · exact t.nodup.erase _
    · exact t.nodup

/-- The buffer of a freed `InBuffer` is freed with it. -/
theorem Tidy.freed_countOut (t : Tidy T s) (ha : a ∈ s.ibUse) (hfree : a ∉ (s.countOut b).ibUse) :
    (s.ibs a).buf ∉ (s.countOut b).bufUse := by
  rw [countOut_ibUse] at hfree
  rw [countOut_bufUse]
  split
  · rename_i hcond
    rw [if_pos hcond] at hfree
    have hab : a = b := by
      by_contra hne
      exact hfree ((List.mem_erase_of_ne hne).2 ha)
    subst hab
    exact fun hm => (t.nodup.mem_erase_iff.1 hm).1 rfl
  · rename_i hcond
    rw [if_neg hcond] at hfree
    exact absurd ha hfree

theorem countOut_bufUse_subset : ∀ b' ∈ (s.countOut b).bufUse, b' ∈ s.bufUse := fun b' hb' => by
  rw [countOut_bufUse] at hb'
  split at hb'
  · exact List.mem_of_mem_erase hb'
  · exact hb'

/-- **Releasing a packet** loses no buffer, and frees the `Buffer` of every `InBuffer` that it frees. -/
theorem Tidy.release {i : Nat} {ip : InPacket} (t : Tidy (tally (held ++ s.queue)) s) (k : Counted held rb s L)
    (hc : Chain s.next s.inBuf L) (hi : held[i]? = some ip) (hsafe : s.SafeRelease ip) (hown : s.OwnRelease ip) :
    Tidy (tally (held.eraseIdx i ++ (s.releaseInPacket ip).queue)) (s.releaseInPacket ip) ∧
      ∀ a ∈ s.ibUse, a ∉ (s.releaseInPacket ip).ibUse → (s.ibs a).buf ∉ (s.releaseInPacket ip).bufUse := by
  obtain ⟨-, -, t', -, hfree⟩ := k.release_inv (fun T s' => Kept T rb s' L ∧ Chain s'.next s'.inBuf L ∧ Tidy T s' ∧
    (∀ a, (s'.ibs a).buf = (s.ibs a).buf) ∧ ∀ a ∈ s.ibUse, a ∉ s'.ibUse → (s.ibs a).buf ∉ s'.bufUse)
    (fun T s' b ⟨k, hc, t, hbuf, hfree⟩ hT hs => by
      refine ⟨k.countOut hc hT hs, by rwa [countOut_next, countOut_inBuf], t.countOut k hT,
        fun a => by rw [countOut_buf, hbuf], fun a ha hn hm => ?_⟩
      by_cases ha' : a ∈ s'.ibUse
      · exact t.freed_countOut ha' hn (by rwa [hbuf])
      · exact hfree a ha ha' (countOut_bufUse_subset _ hm))
    hi hsafe hown ⟨k.1, hc, t, fun _ => rfl, fun a ha hn => absurd ha hn⟩
  exact ⟨t', hfree⟩

end Reader

namespace Rx

open Reader

/-- Every turn of the parser is orderly; a release frees no buffer before the parser, and counts out of the packet's
own buffers only. -/
def OrderlyStep (x : Rx) : Event → Prop
  | .receive al bs => ∀ b, x.readBuffer = some b → ∀ t, (x.rd.fill b bs).ComesTo al b t → Orderly al t
  | .dequeue => True
  | .release i => ∀ ip, x.held[i]? = some ip → x.rd.SafeRelease ip ∧ x.rd.OwnRelease ip

/-- An `InBuffer` that cannot be reached from `pr_InBuf` and has no unreleased packet has been freed. -/
def Unleaked (x : Rx) : Prop := ∀ a, ¬x.rd.Reachable a → tally x.unreleased a = 0 → a ∉ x.rd.ibUse

/-- Whatever `InBuffer` the event frees, it frees the `Buffer` too. -/
def FreesBoth (x x' : Rx) : Prop := ∀ a ∈ x.rd.ibUse, a ∉ x'.rd.ibUse → (x.rd.ibs a).buf ∉ x'.rd.bufUse

/-- Between events. -/
def Clean (x : Rx) : Prop := x.Exact ∧ Tidy (tally (x.held ++ x.rd.queue)) x.rd

variable {x x' : Rx} {fuel : Nat}

theorem Clean.unleaked (h : x.Clean) : x.Unleaked := fun a hr h0 ha => by
  obtain hreach | ⟨hpos, -⟩ := h.2.kept a ha
  · exact hr hreach
  · exact absurd h0 hpos.ne'

/-- A new read buffer. -/
theorem clean_beginRead (al : Alloc) (h : x.Clean) : (srvBeginRead al x).Clean ∧ (srvBeginRead al x).rd.ibUse = x.rd.ibUse := by
  refine ⟨⟨exact_beginRead h.1, ?_⟩, ?_⟩
  all_goals obtain hx | ⟨c, hc, hx⟩ := beginRead_cases al x <;> rw [hx]
  · exact h.2
  · exact ⟨h.2.marked, h.2.kept, List.nodup_cons.2 ⟨hc, h.2.nodup⟩⟩
  · rfl

theorem clean_start (al : Alloc) (ibs : IbPtr → InBuffer) (bufs : BufPtr → Buffer) : (start al ibs bufs).Clean :=
  have hc : Chain (createPacketReader ibs bufs).next (createPacketReader ibs bufs).inBuf [] := rfl
  (clean_beginRead al ⟨exact_init ibs bufs, fun _ ha => absurd ((reachable_iff hc).1 ha) List.not_mem_nil,
    fun _ ha => absurd ha List.not_mem_nil, List.nodup_nil⟩).1

/-- **Every orderly event** loses no buffer, and frees buffers with their `InBuffer`. -/
theorem clean_step {e : Event} (h : x.Clean) (hok : x.OrderlyStep e) (hs : x.step fuel e = some x') :
    x'.Clean ∧ FreesBoth x x' := by
  obtain ⟨hx, tidy⟩ := h
  cases e with
  | receive al bs =>
    obtain ⟨-, rfl⟩ | ⟨b, rd, -, hrb, hfit, hp, rfl⟩ := receive_cases hs
    · exact ⟨⟨hx, tidy⟩, fun a ha hn => absurd ha hn⟩
    · obtain ⟨⟨L, k, hc⟩, -⟩ := id hx
      rw [hrb] at k
      have hfill : ((x.rd.fill b bs).bufs b).offset ≤ bufferSize := by
        rw [bufs_fill_self]
        exact hfit
      obtain ⟨⟨-, -, -, -, tidy'⟩, huse⟩ := treads_process (k.fill hc hfit) hc ⟨tidy.marked, tidy.kept, tidy.nodup⟩
        hfill (hok b hrb) hp
      obtain ⟨hclean, huse'⟩ := clean_beginRead al (x := { x with rd := rd }) ⟨exact_receive hx hrb hfit hp, tidy'⟩
      refine ⟨hclean, fun a ha hn => absurd ?_ hn⟩
      rw [huse']
      exact huse a ha
  | dequeue =>
    have hex := exact_step hx (show x.OwnStep .dequeue from trivial) hs
    cases hs
    obtain ⟨q, n, hd, hq⟩ := dequeue_cases x.rd
    refine ⟨⟨hex, ?_⟩, ?_⟩
    · show Tidy (tally (x.held ++ x.rd.dequeueInPacket.1.toList ++ x.rd.dequeueInPacket.2.queue)) x.rd.dequeueInPacket.2
      rw [hd, List.append_assoc, hq]
      exact ⟨tidy.marked, tidy.kept, tidy.nodup⟩
    · show ∀ a ∈ x.rd.ibUse, a ∉ x.rd.dequeueInPacket.2.ibUse → _
      rw [hd]
      exact fun a ha hn => absurd ha hn
  | release i =>
    have hex := exact_step hx (show x.OwnStep (.release i) from hok) hs
    obtain ⟨⟨L, k, hc⟩, -⟩ := hx
    simp only [step] at hs
    split at hs
    · cases hs
    · rename_i ip hip
      cases hs
      obtain ⟨hsafe, hown⟩ := hok ip hip
      obtain ⟨tidy', hfree⟩ := tidy.release k hc hip hsafe hown
      exact ⟨⟨hex, tidy'⟩, hfree⟩

/-- **No buffer is lost**, whatever the bytes and the reads, in every run whose turns are orderly and whose releases
count out of the packet's own buffers and free none before the parser: an `InBuffer` that the parser has left, and that
has no unreleased packet, is freed, and its `Buffer` with it. -/
theorem inBuffers_freed (al : Alloc) (ibs : IbPtr → InBuffer) (bufs : BufPtr → Buffer) (es : List Event) (fuel : Nat)
    (x : Rx) (hok : Along OrderlyStep (step fuel) (start al ibs bufs) es)
    (hx : runs (step fuel) (start al ibs bufs) es = some x) :
    x.Unleaked ∧ ∀ e x', x.OrderlyStep e → x.step fuel e = some x' → FreesBoth x x' := by
  have h : x.Clean := runs_inv Clean (fun _ _ _ h ho hs => (clean_step h ho hs).1) (clean_start al ibs bufs) hok hx
  exact ⟨h.unleaked, fun e x' ho hs => (clean_step h ho hs).2⟩

/-! ## The first read -/

/-- The parser has one buffer before it, and is in it or at its end. -/
def Alone (ib : IbPtr) (t : Reader × Option IbPtr) : Prop :=
  t.1.inBuf = some ib ∧ t.1.next ib = none ∧ (t.2 = none ∨ t.2 = some ib)

theorem Alone.looked {ib : IbPtr} {t : Reader × Option IbPtr} {ib2 : Option IbPtr} (h : Alone ib t)
    (hl : t.1.Looked ib ib2) : ib2 = none := by
  obtain ⟨hn, -⟩ | ⟨h₁, h₂, -⟩ := hl
  · exact hn
  · rw [← h₂, h.2.1] at h₁
    cases h₁

theorem Alone.orderly {al : Alloc} {ib : IbPtr} {t : Reader × Option IbPtr} (h : Alone ib t) : Orderly al t := by
  have hib : ∀ {a}, t.2 = some a → a = ib := fun ha => by
    rcases h.2.2 with hp | hp <;> cases ha.symm.trans hp
    rfl
  refine ⟨fun a ib2 ha hg hu => ?_, fun a _ _ ha _ l r hc c hcl => ?_⟩
  · obtain rfl := hib ha
    have hn := hu.2.2
    rw [h.looked hg.looked, Option.getD_none, h.2.1] at hn
    cases hn
  · obtain rfl := hib ha
    have hone : Chain t.1.next t.1.inBuf [a] := ⟨h.1, h.2.1⟩
    have hl : l ++ a :: r = [a] := hc.unique hone
    obtain rfl : l = [] := List.eq_nil_of_length_eq_zero (by
      have := congrArg List.length hl
      simp only [List.length_append, List.length_cons, List.length_nil] at this
      omega)
    cases hcl

theorem Alone.turn {al : Alloc} {ib : IbPtr} {t u : Reader × Option IbPtr} (h : Alone ib t)
    (ht : turn al t = some (.again u)) : Alone ib u := by
  have hord : Orderly al t := h.orderly
  obtain ⟨s, p⟩ := t
  obtain ⟨hi, hn, rfl | rfl⟩ := id h
  · cases ht
  obtain hd | ⟨ib2, hg, hu⟩ | ⟨hdr, d, acc, hu⟩ := turn_cases ht
  · cases hd
  · have hskip := skip_inBuf_of_not (hord.skip ib ib2 rfl hg)
    rw [h.looked hg.looked, Option.getD_none] at hskip
    rcases badData_cases s ib ib2 with hb | hb
    · cases hu.trans hb
    · cases hu.trans hb
      rw [h.looked hg.looked, Option.getD_none]
      exact ⟨hskip.trans hi, ((skip_sameLayout s ib).next ib).trans hn, .inr rfl⟩
  · cases hu
    have hd := h.looked acc.found.looked
    refine ⟨by rw [accept_inBuf, hd, Option.getD_none], ((accept_sameLayout s ib hdr d).next ib).trans hn, ?_⟩
    rw [accept_ib1, hd, Option.getD_none]
    split
    · exact .inl hn
    · exact .inr rfl

/-- **The first read** is orderly, whatever it brings. -/
theorem orderly_first (hi : x.rd.inBuf = none) (al : Alloc) (bs : List UInt8) : x.OrderlyStep (.receive al bs) := by
  rintro b - t ⟨fuel, r, hr, ht⟩
  have hc : Chain (x.rd.fill b bs).next (x.rd.fill b bs).inBuf [] := hi
  obtain ⟨q, hq, hcases⟩ := append_cases al b hc fun a ha => absurd ha List.not_mem_nil
  have hqr : q = (r, true) := Option.some.inj
    ((hq _ (lt_of_lt_of_le Nat.one_pos (le_max_right fuel 1))).symm.trans (appendBuffer_mono hr (le_max_left fuel 1)))
  obtain ⟨-, a, ha, -⟩ | ⟨rfl, -⟩ | ⟨ib, -, -, rfl⟩ := hcases
  · cases ha
  · cases hqr
  · cases hqr
    have h₀ : Alone ib ((x.rd.fill b bs).appended [] ib b, ((x.rd.fill b bs).appended [] ib b).inBuf) := by
      have hchain := chain_appended (b := b) hc (List.not_mem_nil (a := ib))
      exact ⟨hchain.1, hchain.2, .inr hchain.1⟩
    exact (ht.inv (Alone ib) (fun t u h hu => h.turn hu) h₀).orderly

/-- The full packet, and its release before another byte comes. -/
theorem inBuffers_freed_early_release : ∃ x : Rx, runs (step 2) fresh earlyRelease = some x ∧ x.Unleaked := by
  obtain ⟨x₁, x₂, x₃, ip, h₁, h₂, h₃, hheld, hnext, hrel⟩ := early_released
  obtain ⟨hok, hx⟩ := early_release_along OrderlyStep h₁ h₂ h₃ (orderly_first rfl) (fun _ => trivial) (by
    intro q hq
    rw [hheld] at hq
    cases hq
    exact ⟨⟨fun _ h => absurd (hrel.symm.trans h) (by decide), fun b hb => absurd (hnext.symm.trans hb) nofun⟩,
      fun _ => hnext⟩)
  exact ⟨x₃, hx, (inBuffers_freed .unbounded (fun _ => default) (fun _ => default) _ 2 x₃ hok hx).1⟩

/-! ## A buffer of noise -/

/-- 4098 bytes of noise, and a packet. -/
def noiseStream : List UInt8 := List.replicate 4098 0 ++ shortPacket.bytes

theorem length_noiseStream : noiseStream.length = 4112 := by
  rw [noiseStream, List.length_append, List.length_replicate, WirePacket.length_bytes, size_shortPacket]

section Noise

variable {S : Mem} {s : Reader} {n P base : Nat} {a : IbPtr} {l : List IbPtr} {al : Alloc} {b : BufPtr}
  {bs : List UInt8}

/-- **Noise inside a buffer** is given up two bytes at a time, and changes nothing but the offset. -/
theorem loop_noise (al : Alloc) (hn : base + bufferSize ≤ n) : ∀ (m : Nat) {s : Reader} {P : Nat},
    View s S n P s.inBuf base (a :: l) → (∀ k < m, S.long (P + 2 * k) ≠ packetId) →
      P + 2 * m + 12 ≤ base + bufferSize → ∃ t, SameLayout s t ∧ t.queue = s.queue ∧
        View t S n (P + 2 * m) t.inBuf base (a :: l) ∧
        ∀ fuel, Loop.run (turn al) (fuel + m) (s, s.inBuf) = Loop.run (turn al) fuel (t, t.inBuf)
  | 0, s, _, v, _, _ => ⟨s, .refl s, rfl, v, fun _ => rfl⟩
  | m + 1, s, P, v, hid, hle => by
    have hi : s.inBuf = some a := v.chain.1
    have w := v
    rw [hi] at w
    have hP := w.pos_eq
    have hbytes : s.bytes a = bufferSize := by
      have := w.filled
      simp only [Filled, bufferSize] at *
      omega
    have hlt : (s.ibs a).offset + sizeofPacket ≤ s.bytes a := by
      simp only [sizeofPacket, bufferSize] at *
      omega
    have ht : turn al (s, s.inBuf) = some (.again (s.advance a 2, (s.advance a 2).inBuf)) := by
      rw [show (s.advance a 2).inBuf = some a from hi, hi,
        turn_garbage w (by simp only [sizeofPacket, bufferSize] at *; omega) (hid 0 (Nat.succ_pos m)),
        if_neg (Nat.not_lt.2 hlt), badData_again (Option.getD_none ▸ hbytes.le), Option.getD_none,
        skip_of_lt (by simp only [sizeofPacket] at hlt; omega)]
    obtain ⟨v', -⟩ := parsing_advance v (by simp only [sizeofPacket] at hlt; omega)
    obtain ⟨t, hs, hq, v'', hrun⟩ := loop_noise al hn m v'
      (fun k hk => by
        have hk' := hid (k + 1) (by omega)
        rwa [show P + 2 * (k + 1) = P + 2 + 2 * k by omega] at hk')
      (by omega)
    refine ⟨t, (SameLayout.advance ..).trans hs, hq, ?_, fun fuel => ?_⟩
    · rwa [show P + 2 * (m + 1) = P + 2 + 2 * m by omega]
    · rw [← Nat.add_assoc, Loop.run_again ht, hrun]

/-- The first read, of noise alone: the parser waits at 4084. -/
theorem receive_noise (hal : al.Succeeds) (ibs : IbPtr → InBuffer) (bufs : BufPtr → Buffer)
    (hS : ∀ k < 2042, S.long (2 * k) ≠ packetId) (hbs : S.Holds 0 bs) (hlen : bs.length = 4096) : ∃ t c l,
      (∀ fuel ≥ 2043, step fuel (start al ibs bufs) (.receive al bs) = some ⟨t, some c, []⟩) ∧ t.queue = [] ∧
        View t S 4096 4084 t.inBuf 0 l ∧ t.Owned l ∧ c ∈ t.bufUse ∧ (t.bufs c).offset = 0 ∧
        ∀ a ∈ l, (t.ibs a).buf ≠ c := by
  obtain ⟨b, hstart⟩ := start_eq hal ibs bufs
  generalize hrd : (createPacketReader ibs bufs).allocateBuffer b = s at hstart
  have hoff : (s.bufs b).offset = 0 := by rw [← hrd, bufs_allocateBuffer_self]
  have hi : s.inBuf = none := hrd ▸ rfl
  have hq₀ : s.queue = [] := hrd ▸ rfl
  have hb : b ∈ s.bufUse := hrd ▸ List.mem_cons_self
  have v₀ : View s S 0 0 s.inBuf 0 [] := by
    rw [hi, ← hrd]
    exact view_start
  have ho₀ : s.Owned [] := hrd ▸ owned_start
  have hlast : 0 < 0 → ∃ a, ([] : List IbPtr).getLast? = some a ∧ (s.ibs a).buf = b := fun h => absurd h (lt_irrefl 0)
  obtain ⟨t, l, happ, hbufs, huse, hq, v, ho, c, hc, -⟩ := view_arrive v₀ ho₀ hlast hal.inBuffer hb hoff
    (fun h => absurd rfl h) (fun _ a ha => (by cases ha)) hbs
    (List.ne_nil_of_length_pos (by omega)) (by rw [hlen]; decide)
  rw [hlen, Nat.zero_add] at v
  obtain ⟨a, r, rfl⟩ : ∃ a r, l = a :: r := by
    cases l with
    | nil => cases hc
    | cons a r => exact ⟨a, r, rfl⟩
  obtain ⟨u, hs, hq', v', hrun⟩ := loop_noise al (Nat.le_refl 4096) 2042 v
    (fun k hk => by rw [Nat.zero_add]; exact hS k hk) (by decide)
  have hend : turn al (u, u.inBuf) = some (.done u) := by
    have w := v'
    rw [show u.inBuf = some a from v'.chain.1] at w ⊢
    exact turn_wait w (by decide)
  have hp : (s.fill b bs).processBuffer 2043 al b = some u := by
    rw [processBuffer_of_append (happ 2043 (by decide)), if_pos rfl]
    exact (hrun 1).trans (Loop.run_done hend)
  have hoff' : (u.bufs b).offset = bufferSize := by rw [hs.bufs, hbufs, bufs_fill_self, hoff, hlen]
  obtain ⟨c, hc, hstep⟩ := receive_full [] hal (List.ne_nil_of_length_pos (by omega)) (by rw [hoff, hlen]) hp hoff'
  have ho' : u.Owned (a :: r) := ho.congr hs (List.suffix_refl _)
  refine ⟨u.allocateBuffer c, c, a :: r, fun fuel hf => by rw [hstart, hstep fuel hf], ?_, v'.allocateBuffer ho' hc,
    ho'.allocateBuffer, List.mem_cons_self, by rw [bufs_allocateBuffer_self], fun a ha he => hc (he ▸ ho'.bufUse a ha)⟩
  exact hq'.trans (hq.trans hq₀)

/-- The second read brings the packet, behind two more bytes of noise: the parser takes it and leaves the first buffer. -/
theorem process_noise (v : View s S 4096 4084 s.inBuf 0 l) (ho : s.Owned l) (hal : al.Succeeds) (hb : b ∈ s.bufUse)
    (hoff : (s.bufs b).offset = 0) (hnew : ∀ a ∈ l, (s.ibs a).buf ≠ b) (hq : s.queue = [])
    (hS : S.long 4084 ≠ packetId) (hpacket : S.Holds 4098 shortPacket.bytes) (hbs : S.Holds 4096 bs)
    (hlen : bs.length = 16) : ∃ t a, (s.fill b bs).processBuffer (l.length + 3) al b = some t ∧ (t.bufs b).offset = 16 ∧
      a ∈ t.ibUse ∧ ¬t.Reachable a ∧ tally t.queue a = 0 := by
  obtain ⟨t, a, c, r, happ, hbufs, hq', hi, ho', hac, ht, v'⟩ :=
    arrive_straddle v ho hal hb hoff hnew hS hbs (by rw [hlen]; decide)
  rw [hlen] at v'
  obtain rfl : r = [] := by
    cases r with
    | nil => rfl
    | cons e r =>
      have := v'.laid.2.2.2.1
      simp only [bufferSize] at this
      omega
  obtain ⟨h, d, hf, sp, -, hsize, hturn⟩ := turn_packet v' hpacket al (by rw [size_shortPacket]) rfl
  rw [if_pos (hal.inPacket _)] at hturn
  have hd : d.ib2 = none := by
    obtain ⟨h₁, -⟩ | ⟨h₁, h₂, -⟩ := hf.looked
    · exact h₁
    · rw [← h₂, v'.next_eq] at h₁
      cases h₁
  obtain ⟨base', l', -, hpars⟩ := parsing_accept v' hf sp
  have hs : SameLayout t ((t.advance c 2).accept c h d).1 := (SameLayout.advance ..).trans (accept_sameLayout _ c h d)
  have hchain : Chain ((t.advance c 2).accept c h d).1.next ((t.advance c 2).accept c h d).1.inBuf [c] := by
    rw [accept_inBuf, hd, (accept_sameLayout ..).next_eq]
    exact v'.chain
  refine ⟨((t.advance c 2).accept c h d).1, a, ?_, ?_, ?_, ?_, ?_⟩
  · rw [processBuffer_of_append (happ _ (by omega)), if_pos rfl]
    show Loop.run (turn al) (l.length + 2 + 1) (t, t.inBuf) = _
    rw [hi, Loop.run_again ht, Loop.run_again hturn, Loop.run_done (hpars.wait (by rw [hsize, size_shortPacket]; decide))]
  · rw [hs.bufs, hbufs, bufs_fill_self, hoff, hlen]
  · rw [hs.ibUse]
    exact ho'.ibUse a List.mem_cons_self
  · rw [reachable_iff hchain]
    exact hac
  · rw [accept_queue, show (t.advance c 2).queue = [] from hq'.trans hq, tally_concat]
    show 0 + (if _ then 1 else 0) = 0
    rw [if_neg]
    rintro (h | h)
    · exact hac (List.mem_singleton.2 h.symm)
    · cases hd.symm.trans h

end Noise

/-- **A buffer of noise is lost**: the parser leaves it with a header that goes on in the next buffer, where it finds a
packet. -/
theorem noise_leaks_buffer : ¬∀ (es : List Event) (fuel : Nat) (x : Rx), (∀ e ∈ es, e.Allowed) → Fits 0 es →
    runs (step fuel) fresh es = some x → x.Unleaked := by
  intro hall
  have hal := Alloc.unbounded_succeeds
  have hlen := length_noiseStream
  let bs₁ := noiseStream.take 4096
  let bs₂ := noiseStream.drop 4096
  have hlen₁ : bs₁.length = 4096 := by rw [List.length_take, hlen]; rfl
  have hlen₂ : bs₂.length = 16 := by rw [List.length_drop, hlen]
  have hS := Mem.holds_ofList noiseStream
  generalize Mem.ofList noiseStream = S at *
  have hreads := hS
  rw [← List.take_append_drop 4096 noiseStream, Mem.holds_append, show (noiseStream.take 4096).length = 4096 from hlen₁,
    Nat.zero_add] at hreads
  rw [noiseStream, Mem.holds_append, List.length_replicate, Nat.zero_add] at hS
  have hzero : ∀ k ≤ 4084, S.long k ≠ packetId := fun k hk => by
    have hlong : (Mem.ofList (List.replicate 4 0)).long 0 = S.long k := Mem.long_congr fun i hi => by
      have h := hS.1 (k + i) (by rw [List.length_replicate]; omega)
      rw [List.getElem?_replicate_of_lt (by omega), Nat.zero_add] at h
      rw [← Option.some.inj h, Nat.zero_add, Mem.ofList, List.getD_eq_getElem?_getD,
        List.getElem?_replicate_of_lt hi, Option.getD_some]
    rw [← hlong]
    decide
  obtain ⟨t, c, l, hstep₁, hq, v, ho, hc, hoff, hnew⟩ := receive_noise hal (fun _ => default) (fun _ => default)
    (fun k hk => hzero _ (by omega)) hreads.1 hlen₁
  obtain ⟨u, a, hp, hoff', ha, hreach, htally⟩ := process_noise v ho hal hc hoff hnew hq (hzero _ (Nat.le_refl _)) hS.2
    hreads.2 hlen₂
  have hne₂ : bs₂ ≠ [] := List.ne_nil_of_length_pos (by omega)
  have hstep₂ := receive_room [] hne₂ (by rw [hoff, hlen₂]; decide) hp (by rw [hoff']; decide)
  refine hall [.receive .unbounded bs₁, .receive .unbounded bs₂] (max 2043 (l.length + 3)) ⟨u, some c, []⟩
    (by simp [Event.Allowed, hal]) ⟨by rw [hlen₁]; decide, by rw [hlen₁, hlen₂]; decide, trivial⟩ ?_ a hreach htally ha
  rw [fresh, runs_cons (hstep₁ _ (le_max_left _ _)), runs_cons (hstep₂ _ (le_max_right _ _)), runs_nil]

end Rx

end AmiPiBorg
