import AmiPiBorg.Reader.Releases

/-!
# Packets that are released before the next read

When nothing is left unreleased before a read, the packets that the read completes all end in the last buffer, and the
parser has left the buffer before that (`Ended`). Releasing them can then not go wrong: it frees no buffer that the
parser has before it, and takes the count of no buffer that the packet does not lie in (`Counted.safe_of_ended`). So a
reader whose packets are released in time needs no other condition to be exact (`reader_exact_prompt`).
-/

set_option autoImplicit false

namespace AmiPiBorg

open ProgLib

namespace Reader

/-- The packet ends in the last buffer, and the parser has left the buffer before that, if the packet starts there. -/
def Ended (s : Reader) (ip : InPacket) : Prop :=
  s.next (ip.inBuf2.getD ip.inBuf) = none ∧ (ip.inBuf2 ≠ none → ¬s.Reachable ip.inBuf)

variable {s s' : Reader} {al : Alloc} {all segs : List Segment} {held : List InPacket} {S : Mem} {n₀ n P base : Nat}
  {ib1 : Option IbPtr} {L l : List IbPtr} {rb : BufPtr} {orb : Option BufPtr} {a b : IbPtr} {ip : InPacket}

/-- A buffer that is before the parser, and behind which there is none, is not freed. -/
theorem Kept.safe_of_last {T : IbPtr → Nat} (k : Kept T orb s L) (hc : Chain s.next s.inBuf L) (hn : s.next a = none) :
    s.SafeCountOut a := by
  intro hr hrel
  obtain ⟨l, r, rfl⟩ := List.append_of_mem ((reachable_iff hc).1 hr)
  have hsuf := hc.suffix
  obtain rfl : r = [] := Chain.unique (hn ▸ hsuf.2) rfl
  have hlast := k.last a (by simp)
  rw [hrel] at hlast
  cases hlast

/-- **The release of such a packet is safe.** -/
theorem Counted.safe_of_ended (k : Counted held orb s L) (hc : Chain s.next s.inBuf L) (hip : ip ∈ held ++ s.queue)
    (he : s.Ended ip) : s.SafeRelease ip ∧ s.OwnRelease ip := by
  obtain ⟨hn, hr⟩ := he
  have hp := k.2 ip hip
  unfold SafeRelease OwnRelease
  cases h2 : ip.inBuf2 with
  | none =>
    rw [h2, Option.getD_none] at hn
    exact ⟨⟨k.1.safe_of_last hc hn, fun b hb => absurd (hn.symm.trans hb) nofun⟩, fun _ => hn⟩
  | some c =>
    rw [h2, Option.getD_some] at hn
    have hnext := hp.next c h2
    refine ⟨⟨fun h => absurd h (hr (by rw [h2]; exact nofun)), fun b hb => ?_⟩, nofun⟩
    cases hnext.symm.trans hb
    exact k.1.safe_of_last hc hn

/-- Where the parser goes on, it has no other buffers before it. -/
theorem reachable_of_at (hc : Chain s.next s.inBuf l) (hs : SameLayout s s') (hi : s.At l s'.inBuf)
    (hr : s'.Reachable a) : s.Reachable a := by
  obtain ⟨l', hl', hc'⟩ := hi
  rw [← hs.next_eq] at hc'
  exact (reachable_iff hc).2 (hl'.subset ((reachable_iff hc').1 hr))

theorem Ended.layout (h : s.Ended ip) (hc : Chain s.next s.inBuf l) (hs : SameLayout s s') (hi : s.At l s'.inBuf) :
    s'.Ended ip := by
  refine ⟨?_, fun h2 hr => h.2 h2 (reachable_of_at hc hs hi hr)⟩
  rw [hs.next_eq]
  exact h.1

/-- A buffer that the parser is in, with its position behind the bytes that were there before the read, is the last. -/
theorem View.last_of_lt (v : View s S n P (some a) base (a :: l)) (hn : n₀ < P)
    (hblock : n₀ % bufferSize + (n - n₀) ≤ bufferSize) (hle : n₀ ≤ n) : l = [] := by
  cases l with
  | nil => rfl
  | cons c l =>
    have h₁ := v.pos_eq
    have h₂ := v.offset_le
    have h₃ := v.filled
    have h₄ := v.aligned
    have h₅ : base + bufferSize < n := v.laid.2.2.2.1
    simp only [Filled, bufferSize] at *
    omega

/-- **A turn** of the loop behind a read that came when nothing was left unreleased. -/
theorem progress_turn_ended (pr : Progress all held S rb n s ib1 P segs base l) (hal : ∀ s, al.inPacket s = true)
    (hblock : n₀ % bufferSize + (n - n₀) ≤ bufferSize) (hle : n₀ ≤ n) (hdue : completed Segment.size segs (n₀ - P) = [])
    (he : ∀ ip ∈ s.queue, s.Ended ip) :
    turn al (s, ib1) = some (.done s) ∧ completed Segment.size segs (n - P) = [] ∨
      ∃ s' ib1' P' segs' base' l', turn al (s, ib1) = some (.again (s', ib1')) ∧ P < P' ∧ P' ≤ n ∧ SameLayout s s' ∧
        Progress all held S rb n s' ib1' P' segs' base' l' ∧ completed Segment.size segs' (n₀ - P') = [] ∧
        ∀ ip ∈ s'.queue, s'.Ended ip := by
  obtain hd | ⟨s', ib1', P', segs', base', l', ht, hlt, hP', hs, pr'⟩ := progress_turn pr hal
  · exact .inl hd
  refine .inr ⟨s', ib1', P', segs', base', l', ht, hlt, hP', hs, pr', ?_⟩
  -- up to `n₀` the stream completes what is queued, and no more
  have hcount : P' ≤ n₀ → s.queue.length = s'.queue.length + (completed Segment.size segs' (n₀ - P')).length := by
    intro hP
    have h₁ := congrArg List.length (pr.queued n₀ (by omega))
    have h₂ := congrArg List.length (pr'.queued n₀ hP)
    rw [hdue] at h₁
    simp only [List.length_map, List.length_append, List.length_nil] at h₁ h₂
    omega
  have hchain := pr.parsing.1.chain
  cases ib1 with
  | none => cases ht
  | some a =>
    have hat : s.At l (some a) := by
      obtain ⟨base₁, l₁, v, hsuf⟩ := pr.parsing.view
      exact ⟨l₁, hsuf, v.chain⟩
    obtain hd | ⟨ib2, hg, hb⟩ | ⟨h, d, acc, ha⟩ := turn_cases ht
    · cases hd
    · -- a header is given up
      have hat' := hg.looked.at hat
      obtain rfl : s' = s.skip (ib2.getD a) := by
        rcases badData_cases s a ib2 with h | h
        · cases hb.trans h
        · cases hb.trans h
          rfl
      rw [skip_queue] at hcount ⊢
      refine ⟨?_, fun ip hip => (he ip hip).layout hchain hs ?_⟩
      · by_cases hP : P' ≤ n₀
        · exact List.eq_nil_of_length_eq_zero (by have := hcount hP; omega)
        · rw [Nat.sub_eq_zero_of_le (by omega)]
          exact completed_eq_nil (by decide) segs'
      · rcases skip_inBuf s (ib2.getD a) with h | ⟨h, -⟩
        · rw [h]
          exact ⟨l, List.suffix_refl l, hchain⟩
        · rw [h]
          exact hat'.next
    · -- a packet is accepted
      have hat' := acc.found.looked.at hat
      obtain rfl : s' = (s.accept a h d).1 := congrArg Prod.fst (Turn.again.inj ha)
      rw [accept_queue, List.length_append, List.length_singleton] at hcount
      have hP : n₀ < P' := by
        by_contra hP
        have := hcount (Nat.not_lt.1 hP)
        omega
      have hi : ((s.accept a h d).1).inBuf = some (d.ib2.getD a) := accept_inBuf s a h d
      refine ⟨?_, fun ip hip => ?_⟩
      · rw [Nat.sub_eq_zero_of_le hP.le]
        exact completed_eq_nil (by decide) segs'
      rw [accept_queue, List.mem_append, List.mem_singleton] at hip
      rcases hip with hip | rfl
      · exact (he ip hip).layout hchain hs (by rw [hi]; exact hat')
      · have v := pr'.parsing.1
        rw [hi] at v
        obtain ⟨r, rfl, -⟩ := v.chain.of_some
        obtain rfl := v.last_of_lt hP hblock hle
        refine ⟨Chain.nil_iff.1 v.chain.2, fun h2 hr => ?_⟩
        have hmem := (reachable_iff (hi.symm ▸ v.chain)).1 hr
        obtain ⟨c, hc⟩ := Option.ne_none_iff_exists'.1 h2
        have hc' : d.ib2 = some c := hc
        rw [hc', Option.getD_some, List.mem_singleton] at hmem
        have hne := acc.found.looked.ne hat
        rw [hc'] at hne
        exact hne (congrArg some hmem.symm)

/-- **The loop.** -/
theorem progress_loop_ended (pr : Progress all held S rb n s ib1 P segs base l) (hal : ∀ s, al.inPacket s = true)
    (hblock : n₀ % bufferSize + (n - n₀) ≤ bufferSize) (hle : n₀ ≤ n) (hdue : completed Segment.size segs (n₀ - P) = [])
    (hq : s.queue = []) : ∃ s', Loop.run (turn al) (n - P + 1) (s, ib1) = some s' ∧ ∀ ip ∈ s'.queue, s'.Ended ip := by
  refine Loop.run_total (fun k t => ∃ P segs base l, k = n - P ∧ Progress all held S rb n t.1 t.2 P segs base l ∧
    completed Segment.size segs (n₀ - P) = [] ∧ ∀ ip ∈ t.1.queue, t.1.Ended ip) _ ?_ (k := n - P)
    ⟨P, segs, base, l, rfl, pr, hdue, fun ip hip => absurd (hq ▸ hip) List.not_mem_nil⟩ (Nat.lt_succ_self _)
  rintro k ⟨t, p⟩ ⟨P, segs, base, l, rfl, pr, hdue, he⟩
  obtain ⟨ht, -⟩ | ⟨t', p', P', segs', base', l', ht, hlt, hP', -, pr', hdue', he'⟩ :=
    progress_turn_ended pr hal hblock hle hdue he
  · exact .inl ⟨t, ht, he⟩
  · exact .inr ⟨_, n - P', ht, by omega, P', segs', base', l', rfl, pr', hdue', he'⟩

end Reader

namespace Rx

open Reader

variable {all cur : List Segment} {S : Mem} {n i : Nat} {x x' : Rx} {ip : InPacket} {al : Alloc} {fuel : Nat}
  {bs : List UInt8} {g : Taken}

/-- All packets that are not released end in the last buffer. -/
def AllEnded (x : Rx) : Prop := ∀ ip ∈ x.unreleased, x.rd.Ended ip

/-- **A read** that comes when nothing is left unreleased. -/
theorem allEnded_receive (h : Synced cur S n x) (hal : al.Succeeds) (hS : S.Holds n bs)
    (hfit : n % bufferSize + bs.length ≤ bufferSize) (hn : n + bs.length ≤ (streamOf cur).length)
    (hU : x.unreleased = []) (hx : x.srvReceiveFromRemote fuel al bs = some x') : x'.AllEnded := by
  obtain ⟨-, rfl⟩ | ⟨c, rd, hne, hrb, -, hproc, rfl⟩ := receive_cases hx
  · exact fun ip hip => absurd (hU ▸ hip) List.not_mem_nil
  obtain ⟨P, segs, base, l, rb, b, pr, hc, hb, hbu, hoff, hon, hnew⟩ := h
  cases hrb.symm.trans hb
  obtain ⟨hheld, hqueue⟩ := List.append_eq_nil_iff.1 hU
  obtain ⟨t, l', happ, -, pr'⟩ := progress_arrive pr hal.inBuffer hbu hoff hon hnew hS hne hfit hn
  -- the read itself queues nothing
  have hq : t.queue = [] := by
    have h₁ := congrArg List.length (pr.queued P (Nat.le_refl P))
    have h₂ := congrArg List.length (pr'.queued P (Nat.le_refl P))
    rw [hheld, hqueue] at h₁
    simp only [List.length_map, List.length_append, List.length_nil] at h₁ h₂
    exact List.eq_nil_of_length_eq_zero (by omega)
  obtain ⟨t', hrun, hended⟩ := progress_loop_ended pr' hal.inPacket (by omega) (Nat.le_add_right n bs.length) hc hq
  have hproc' : (x.rd.fill c bs).processBuffer (l.length + 1 + (n + bs.length - P + 1)) al c = some t' := by
    rw [processBuffer, happ _ (by omega), Option.bind_some, if_pos rfl]
    exact Loop.run_mono hrun (by omega)
  obtain rfl : rd = t' := Option.some.inj
    ((processBuffer_mono hproc (Nat.le_max_left ..)).symm.trans (processBuffer_mono hproc' (Nat.le_max_right ..)))
  obtain hbr | ⟨d, -, hbr⟩ := beginRead_cases al { x with rd := rd }
  all_goals
    rw [hbr]
    intro ip hip
    rw [unreleased, hheld, List.nil_append] at hip
    exact hended ip hip

theorem AllEnded.dequeue (h : x.AllEnded) :
    AllEnded { x with rd := x.rd.dequeueInPacket.2, held := x.held ++ x.rd.dequeueInPacket.1.toList } := by
  obtain ⟨q, m, hd, hq⟩ := dequeue_cases x.rd
  rw [hd]
  intro ip hip
  rw [unreleased, List.append_assoc, hq] at hip
  exact h ip hip

theorem AllEnded.release (h : x.AllEnded) (i : Nat) (ip : InPacket) :
    AllEnded { x with rd := x.rd.releaseInPacket ip, held := x.held.eraseIdx i } := by
  intro q hq
  rw [unreleased, releaseInPacket_queue] at hq
  obtain ⟨h₁, h₂⟩ := h q ((List.mem_append.1 hq).elim
    (fun hq => List.mem_append_left _ (List.mem_of_mem_eraseIdx hq)) fun hq => List.mem_append_right _ hq)
  unfold Ended Reachable
  rw [releaseInPacket_next, releaseInPacket_inBuf]
  exact ⟨h₁, h₂⟩

/-- Pools answer, nothing is left unreleased before a read, and a packet is released that is held. -/
def InTime (x : Rx) : Event → Prop
  | .receive al _ => al.Succeeds ∧ x.unreleased = []
  | .dequeue => True
  | .release i => i < x.held.length

/-- Then packets can be released. -/
theorem AllEnded.usable (h : x.AllEnded) (hex : x.Exact) {e : Event} (he : x.InTime e) : x.Usable e := by
  cases e with
  | receive al bs => exact he.1
  | dequeue => trivial
  | release i =>
    obtain ⟨⟨L, k, hc⟩, -⟩ := hex
    have hi : x.held[i]? = some x.held[i] := List.getElem?_eq_getElem he
    have hmem := List.mem_append_left x.rd.queue (List.mem_of_getElem? hi)
    exact ⟨_, hi, k.safe_of_ended hc hmem (h _ hmem)⟩

/-- Every event that is in time keeps this. -/
theorem AllEnded.step {e : Event} (hU : x.AllEnded) (h : InStep all (Mem.ofList (streamOf all)) n x g) (ht : x.InTime e)
    (ha : Arrives all n e) (hn : n + e.bytes.length < (streamOf all).length) (hs : x.step fuel e = some x') :
    x'.AllEnded := by
  cases e with
  | receive al bs =>
    obtain ⟨cur, hsync, hstream, -⟩ := h.synced
    exact allEnded_receive hsync ht.1 ha.1 ha.2 (by rw [hstream]; exact hn.le) ht.2 hs
  | dequeue =>
    cases hs
    exact hU.dequeue
  | release i =>
    simp only [Rx.step] at hs
    split at hs
    · cases hs
    · cases hs
      exact hU.release i _

/-- **The reader is exact when packets are released in time**, that is, when all that were queued have been taken and
released before the next read, in any order: its packets are those of the stream, those that are held are as they were
when they were taken, and every count is exact. -/
theorem reader_exact_prompt (ps : List WirePacket) (al : Alloc) (ibs : IbPtr → InBuffer) (bufs : BufPtr → Buffer)
    (es : List Event) (M : Nat) (hal : al.Succeeds)
    (hok : ∀ fuel ≥ M, Along InTime (step fuel) (start al ibs bufs) es) (hfit : Fits 0 es)
    (hstream : received es <+: ps.flatMap WirePacket.bytes) :
    ∃ N x g, (∀ fuel ≥ N, runs (step fuel) (start al ibs bufs) es = some x ∧
        noted note (step fuel) ⟨[], []⟩ (start al ibs bufs) es = g) ∧
      g.all ++ x.rd.queue.map x.rd.view =
        (completed WirePacket.size ps (received es).length).map WirePacket.incoming ∧
      x.held.map x.rd.view = g.held ∧ x.ExactCounts ∧ ∀ i < x.held.length, x.Usable (.release i) := by
  have hstart : (start al ibs bufs).AllEnded := by
    obtain ⟨b, hs⟩ := start_eq hal ibs bufs
    rw [hs]
    exact fun ip hip => absurd hip List.not_mem_nil
  obtain ⟨N, x, g, hx, hall, hheld, hex, hU⟩ := exact_of_usable AllEnded hal ibs bufs hstart
    (fun all n x g e h hU ht ha hn => ⟨hU.usable h.exact ht, fun _ _ hs => hU.step h ht ha hn hs⟩) hok hfit hstream
  exact ⟨N, x, g, hx, hall, hheld, hex.exactCounts, fun i hi => hU.usable hex (e := .release i) hi⟩

theorem reader_exact_prompt_early : ∃ N x g, (∀ fuel ≥ N, runs (step fuel) fresh earlyRelease = some x ∧
      noted note (step fuel) ⟨[], []⟩ fresh earlyRelease = g) ∧
    g.all ++ x.rd.queue.map x.rd.view = [fullPacket.incoming] ∧ x.ExactCounts := by
  have hok : ∀ fuel ≥ 2, Along InTime (step fuel) fresh earlyRelease :=
    early_along ⟨Alloc.unbounded_succeeds, rfl⟩ (fun _ => trivial) fun x ip hheld _ _ => by
      show 0 < x.held.length
      rw [hheld]
      exact Nat.one_pos
  obtain ⟨N, x, g, hx, h₁, -, h₂, -⟩ := reader_exact_prompt [fullPacket] .unbounded (fun _ => default)
    (fun _ => default) earlyRelease 2 Alloc.unbounded_succeeds hok fits_earlyRelease (by simp [received_earlyRelease])
  refine ⟨N, x, g, hx, ?_, h₂⟩
  rw [h₁, received_earlyRelease, fullPacket.length_bytes, completed_cons_of_le (Nat.le_refl _)]
  rfl

end Rx

end AmiPiBorg
