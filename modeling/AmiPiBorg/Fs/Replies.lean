import AmiPiBorg.Fs.Steps

/-!
# Packets are replied to once

A packet waits for its reply on the port of a volume or, from there on, with one of its requests: with the only one, or
with the last one of a write. Every packet that has arrived was replied to or waits (`Waiting`), and no packet waits
twice, as long as no packet closes a file or writes nothing on a mounted volume (`packets_replied_once`). Closing a file
replies at once and again when the response comes in, and a write of no bytes has no request to wait with.
-/

set_option autoImplicit false

namespace AmiPiBorg.Fs

open ProgLib

variable {s s' : State} {v p r : Addr} {mems : List (Option Addr)} {lock : Option Addr} {res : FsResponse} {e : Event}
  {L L' : List Addr}

/-- Whether the packet of a request is replied to at the response to it. -/
def State.isLast (s : State) (r : Addr) : Bool := decide ((s.reqs r).type = .write → (s.reqs r).arg3 = 0)

theorem isLast_of (h : (s.reqs r).type = .write → (s.reqs r).arg3 = 0) : s.isLast r = true := decide_eq_true h

/-- The packets that wait with a request. -/
def lasts (s : State) : List Addr := ((s.queued ++ s.unanswered).filter s.isLast).map fun r => (s.reqs r).pkt

/-- The packets that wait. -/
def pending (s : State) : List Addr := s.msgs.map Prod.snd ++ lasts s

/-- **The packets `L` wait**: every packet that has arrived was replied to or is one of them, none of them waits twice,
and the reply goes to DOS. -/
structure Waiting (s : State) (L : List Addr) : Prop where
  arrived : s.arrived.Perm (s.replied ++ L)
  out : s.out.Perm L
  nodup : L.Nodup
  port : ∀ p ∈ L, (s.pkts p).port.isDos = true

/-- No packet was replied to more often than it has arrived, and when no packets and no responses are awaited, all were
replied to. -/
structure RepliedOnce (s : State) : Prop where
  most : ∀ p, s.replied.count p ≤ s.arrived.count p
  all : s.msgs = [] → s.queued = [] → s.unanswered = [] → s.replied.Perm s.arrived

/-- No packet to a mounted volume closes a file or writes nothing. -/
def Waits (s : State) : Event → Prop
  | .dos v _ _ => ∀ m ∈ s.msgs.find? fun m => m.1 = v, (s.vols v).mounted = true →
      (s.pkts m.2).type ≠ .end ∧ ((s.pkts m.2).type = .write → State.bytesToWrite (s.pkts m.2) ≠ 0)
  | _ => True

instance (s : State) : (e : Event) → Decidable (Waits s e)
  | .arrive .. | .dos .. | .response .. | .readerError | .writerReply | .poke .. => by unfold Waits; infer_instance

theorem Waiting.repliedOnce (h : Waiting s (pending s)) : RepliedOnce s := by
  refine ⟨fun p => ?_, fun hm hq hu => ?_⟩
  · rw [h.arrived.count_eq, List.count_append]
    exact Nat.le_add_right _ _
  · have hp : pending s = [] := by
      unfold pending lasts
      rw [hm, hq, hu]
      rfl
    have ha := h.arrived
    rw [hp, List.append_nil] at ha
    exact ha.symm

/-! ## Waiting packets -/

/-- The order of the requests does not matter. -/
theorem lasts_perm (hr : s'.reqs = s.reqs) (hp : (s'.queued ++ s'.unanswered).Perm (s.queued ++ s.unanswered)) :
    (lasts s').Perm (lasts s) := by
  have hl : s'.isLast = s.isLast := by
    unfold State.isLast
    rw [hr]
  unfold lasts
  rw [hl, hr]
  exact (hp.filter _).map _

theorem Waiting.congr (h : Waiting s L) (hp : L'.Perm L) (ha : s'.arrived = s.arrived) (hr : s'.replied = s.replied)
    (ho : s'.out = s.out) (hk : ∀ q, (s'.pkts q).port = (s.pkts q).port) : Waiting s' L' := by
  refine ⟨?_, ?_, hp.nodup_iff.2 h.nodup, fun p hm => ?_⟩
  · rw [ha, hr]
    exact h.arrived.trans (hp.symm.append_left _)
  · rw [ho]
    exact h.out.trans hp.symm
  · rw [hk]
    exact h.port p (hp.mem_iff.1 hm)

theorem Quiet.pending (h : Quiet p s s') : pending s' = pending s := by
  unfold Fs.pending lasts State.isLast
  rw [h.reqs, h.msgs, h.queued, h.unanswered]

theorem Quiet.samePort (h : Quiet p s s') (q : Addr) : (s'.pkts q).port = (s.pkts q).port := by
  by_cases hq : q = p
  · rw [hq]
    exact h.port
  · rw [h.others q hq]

theorem Waiting.quiet (h : Waiting s L) (hq : Quiet p s s') : Waiting s' L :=
  h.congr (.refl _) hq.arrived hq.replied hq.out hq.samePort

/-- **The reply** takes the packet back to DOS. -/
theorem Waiting.reply (h : Waiting s (p :: pending s)) (v : Addr) (r : Option Addr) :
    Waiting (s.replyToDosPacket v r p) (pending (s.replyToDosPacket v r p)) := by
  obtain ⟨n, hn⟩ : ∃ n, (s.pkts p).port = .dos n := by
    have hd := h.port p List.mem_cons_self
    cases hp : (s.pkts p).port with
    | dos n => exact ⟨n, rfl⟩
    | volume w =>
      rw [hp] at hd
      cases hd
  obtain ⟨hnot, hnd⟩ := List.nodup_cons.1 h.nodup
  have hpend : pending (s.replyToDosPacket v r p) = pending s := by
    rw [replyToDosPacket_eq]
    unfold pending lasts
    dsimp only
    rw [hn]
    dsimp only [Port.toVolume]
    rw [List.append_nil]
    rfl
  rw [hpend, replyToDosPacket_eq]
  refine ⟨?_, ?_, hnd, fun q hq => ?_⟩
  · dsimp only
    rw [List.append_assoc]
    exact h.arrived
  · dsimp only
    rw [hn]
    have ho := h.out.erase p
    rwa [List.erase_cons_head] at ho
  · have hne : q ≠ p := fun he => hnot (he ▸ hq)
    dsimp only
    rw [Function.update_of_ne hne]
    exact h.port q (List.mem_cons_of_mem _ hq)

/-- New requests wait for their packet if just one of them is a last one. -/
theorem Waiting.asks {t : Action} {new : List Addr} (h : Waiting s (p :: pending s)) (ha : Asks v p t new s s')
    (hnew : ∀ r ∈ new, r ∉ s.queued ++ s.unanswered) (hl : ∃ l, new.filter s'.isLast = [l]) :
    Waiting s' (pending s') := by
  obtain ⟨l, hl⟩ := hl
  have hmem : l ∈ new := (List.mem_filter.1 (hl ▸ List.mem_singleton_self l : l ∈ new.filter s'.isLast)).1
  have hold : ∀ r ∈ s.queued ++ s.unanswered, s'.reqs r = s.reqs r := fun r hr => ha.reqs r fun hm => hnew r hm hr
  have hlasts : (lasts s').Perm (p :: lasts s) := by
    have hfilter : (s.queued ++ s.unanswered).filter s'.isLast = (s.queued ++ s.unanswered).filter s.isLast := by
      refine List.filter_congr fun r hr => ?_
      unfold State.isLast
      rw [hold r hr]
    unfold lasts
    refine ((ha.perm.filter _).map _).trans ?_
    rw [List.filter_append, hl, hfilter, List.map_append, List.map_singleton, (ha.filled l hmem).pkt,
      List.map_congr_left fun r hr => by rw [hold r (List.mem_filter.1 hr).1]]
    exact List.perm_append_singleton p _
  have hpend : (pending s').Perm (p :: pending s) := by
    unfold pending
    rw [ha.msgs]
    exact (hlasts.append_left _).trans List.perm_middle
  exact h.congr hpend ha.arrived ha.replied ha.out fun q => by rw [ha.pkts]

/-! ## Messages and responses -/

/-- Of the requests of a write, the last one is a last one. -/
theorem Chunked.filter_isLast {n : Nat} {new : List Addr} (h : Chunked n new s) (hn : n ≠ 0)
    (ht : ∀ r ∈ new, (s.reqs r).type = .write) : ∃ l, new.filter s.isLast = [l] := by
  unfold Chunked at h
  rw [if_neg hn] at h
  obtain ⟨init, l, rfl, hi, hl, -⟩ := h
  refine ⟨l, ?_⟩
  rw [List.filter_append, List.filter_eq_nil_iff.2 fun r hr => ?_]
  · rw [List.nil_append, List.filter_singleton, isLast_of fun _ => hl]
    rfl
  · unfold State.isLast
    rw [decide_eq_true_eq]
    exact fun hz => hi r hr (hz (ht r (List.mem_append_left _ hr)))

theorem Outcome.waiting (ho : Outcome v p mems lock s s') (hc : Core s) (hf : FreshReqs s mems)
    (h : Waiting s (p :: pending s))
    (hw : (s.vols v).mounted = true →
      (s.pkts p).type ≠ .end ∧ ((s.pkts p).type = .write → State.bytesToWrite (s.pkts p) ≠ 0)) :
    Waiting s' (pending s') := by
  have hquiet : ∀ {s₁ : State}, Quiet p s s₁ → Waiting s₁ (p :: pending s₁) := fun hq => hq.pending ▸ h.quiet hq
  cases ho with
  | replied s₁ hq _ _ he =>
    rw [he]
    exact (hquiet hq).reply v none
  | asked s₁ r hq _ hsub ha hne =>
    refine (hquiet hq).asks ha (fun a hm => (hq.core hc).fresh (hq.freshReqs hf) (hsub.subset hm)) ⟨r, ?_⟩
    have hlast : s'.isLast r = true := isLast_of fun ht => by
      rw [(ha.filled r (List.mem_singleton_self r)).type] at ht
      exact absurd (sentAs_eq_write.1 ht) hne
    rw [List.filter_singleton, hlast]
    rfl
  | wrote s₁ new hq _ hsub ha ht hm hch =>
    refine (hquiet hq).asks ha (fun a hm => (hq.core hc).fresh (hq.freshReqs hf) (hsub.subset hm)) ?_
    exact hch.filter_isLast ((hw hm).2 ht) fun r hr => (ha.filled r hr).type
  | ended s₁ r _ _ ht hm _ => exact absurd ht (hw hm).1

/-- After a response that is not the last one for its packet, the same packets wait. -/
theorem lasts_unlinked (hu : res.req ∈ s.unanswered)
    (hm : s.more res = true ∨ s.isLast res.req = false) : (lasts s).Perm (lasts (s.unlinked res)) := by
  cases hmore : s.more res with
  | true =>
    unfold lasts
    rw [unlinked_more hmore]
    exact .refl _
  | false =>
    have hlast := hm.resolve_left (by rw [hmore]; exact Bool.false_ne_true)
    have hfilter := (unlinked_perm hu hmore).filter s.isLast
    rw [List.filter_cons_of_neg (by rw [hlast]; exact Bool.false_ne_true)] at hfilter
    exact hfilter.map _

/-- After the last response for a packet, it does not wait. -/
theorem lasts_answered (hu : res.req ∈ s.unanswered) (hm : s.more res = false) (hl : s.isLast res.req = true) :
    (lasts s).Perm ((s.reqs res.req).pkt :: lasts (s.unlinked res)) := by
  have hfilter := (unlinked_perm hu hm).filter s.isLast
  rw [List.filter_cons_of_pos hl] at hfilter
  exact hfilter.map _

theorem Answered.waiting (ho : Answered v res p lock (s.unlinked res) s') (hc : Core s) (hfit : Fit s)
    (h : Waiting s (pending s)) {m : State.Mounting} (hend : ChunkEnds s (.response res lock m))
    (hu : res.req ∈ s.unanswered) (hp : (s.reqs res.req).pkt = p) : Waiting s' (pending s') := by
  have hmem := List.mem_append_right s.queued hu
  have hv := hc.valid _ hmem
  have ht : (s.reqs res.req).type = (s.pkts p).type.sentAs := hp ▸ hfit _ hmem
  have hwr := (hend.resolve_left hv.2.1).resolve_left hv.2.2
  cases ho with
  | awaited hq _ hty hz =>
    have hlasts : (lasts s).Perm (lasts (s.unlinked res)) := by
      refine lasts_unlinked hu ?_
      obtain hty | hty := hty
      · exact .inl (decide_eq_true ⟨ht.trans (sentAs_eq_read.2 hty), hz⟩)
      · have htw := ht.trans (sentAs_eq_write.2 hty)
        exact .inr (decide_eq_false fun he => (hwr htw).1 hz (he htw))
    have hun : Waiting (s.unlinked res) (pending (s.unlinked res)) :=
      h.congr (hlasts.symm.append_left _) rfl rfl rfl fun _ => rfl
    exact hq.pending ▸ hun.quiet hq
  | replied s₁ hq _ hz he =>
    have hlast : s.isLast res.req = true := by
      refine isLast_of fun htw => ?_
      by_contra hne
      rw [ht] at htw
      exact hz (.inr (sentAs_eq_write.1 htw)) ((hwr (ht.trans htw)).2 hne)
    have hlasts := lasts_answered hu (hfit.last hu hp hz) hlast
    rw [hp] at hlasts
    have hpend : (pending s).Perm (p :: pending (s.unlinked res)) :=
      (hlasts.append_left _).trans List.perm_middle
    have hun : Waiting (s.unlinked res) (p :: pending (s.unlinked res)) := h.congr hpend.symm rfl rfl rfl fun _ => rfl
    have hs₁ : Waiting s₁ (p :: pending s₁) := hq.pending ▸ hun.quiet hq
    rw [he]
    exact hs₁.reply v _

/-! ## Runs -/

/-- What holds of packets all the time. -/
structure Orderly (s : State) : Prop where
  core : Core s
  fit : Fit s
  waiting : Waiting s (pending s)

/-- A packet arrives. -/
theorem Waiting.arrive {pkt : DosPacket} (h : Waiting s (pending s)) (hp : p ∉ s.out) (hd : pkt.port.isDos = true)
    (hs : step s (.arrive v p pkt) = some s') : Waiting s' (pending s') := by
  cases hs
  have hnot : p ∉ pending s := fun hm => hp (h.out.mem_iff.2 hm)
  have hperm : ((s.msgs ++ [(v, p)]).map Prod.snd ++ lasts s).Perm (p :: pending s) := by
    rw [List.map_append, List.append_assoc]
    exact List.perm_middle
  refine ⟨?_, ?_, ?_, fun q hq => ?_⟩
  · change (s.arrived ++ [p]).Perm (s.replied ++ ((s.msgs ++ [(v, p)]).map Prod.snd ++ lasts s))
    refine ((List.perm_append_singleton p _).trans (h.arrived.cons p)).trans ?_
    exact List.perm_middle.symm.trans (hperm.symm.append_left _)
  · change (s.out ++ [p]).Perm ((s.msgs ++ [(v, p)]).map Prod.snd ++ lasts s)
    exact ((List.perm_append_singleton p _).trans (h.out.cons p)).trans hperm.symm
  · exact hperm.nodup_iff.2 (List.nodup_cons.2 ⟨hnot, h.nodup⟩)
  · change (Function.update s.pkts p pkt q).port.isDos = true
    obtain rfl | hm := List.mem_cons.1 (hperm.mem_iff.1 hq)
    · rw [Function.update_self]
      exact hd
    · have hne : q ≠ p := fun he => hnot (he ▸ hm)
      rw [Function.update_of_ne hne]
      exact h.port q hm

/-- **One step.** -/
theorem Orderly.step (h : Orderly s) (hst : Steady s e) (hend : ChunkEnds s e) (hw : Waits s e) :
    ∃ s', step s e = some s' ∧ Orderly s' := by
  obtain ⟨hc, hfit, ha⟩ := h
  obtain ⟨s', hs, hc', hfit'⟩ := hst.step hc hfit
  have hl := hst.1
  refine ⟨s', hs, ?_⟩
  suffices hh : Waiting s' (pending s') from ⟨hc', hfit', hh⟩
  cases e with
  | arrive v p pkt => exact ha.arrive hl.2.1 hl.2.2 hs
  | dos v mems lock =>
    obtain ⟨m, hm, hout⟩ := dos_outcome hc hl.2.1 hs
    have hmem := List.mem_of_find?_eq_some hm
    have hpend : (pending s).Perm (m.2 :: pending { s with msgs := s.msgs.erase m }) :=
      ((List.perm_cons_erase hmem).map Prod.snd).append_right _
    exact hout.waiting (hc.congr rfl rfl rfl rfl rfl) hl.2.1 (ha.congr hpend.symm rfl rfl rfl fun _ => rfl) (hw m hm)
  | response res lock m =>
    obtain ⟨vols, volList, rfl⟩ | ⟨hu, hans⟩ := response_outcome hl.2.2.1 hs
    · exact ha.congr (.refl _) rfl rfl rfl fun _ => rfl
    · exact hans.waiting hc hfit ha hend hu rfl
  | readerError =>
    cases hs
    exact ha.congr (.refl _) rfl rfl rfl fun _ => rfl
  | writerReply =>
    obtain ⟨-, rfl⟩ | ⟨r, l, hq, rfl⟩ := writerReply_eq hc hs
    · exact ha.congr (.refl _) rfl rfl rfl fun _ => rfl
    · have hlasts : (lasts ({ s with writeReady := true }.sending r)).Perm (lasts s) :=
        lasts_perm rfl (sending_perm hq)
      exact ha.congr (hlasts.append_left _) rfl rfl rfl fun _ => rfl
  | poke mem locks =>
    cases hs
    exact ha.congr (.refl _) rfl rfl rfl fun _ => rfl

theorem orderly_start (mem : Addr → UInt8) (pkts : Addr → DosPacket) (reqs : Addr → FsRequest)
    (locks : Addr → FsFileLock) (vols : Addr → Volume) (links : Links Node) :
    Orderly (start mem pkts reqs locks vols links) :=
  ⟨core_start .., fit_start mem pkts reqs locks vols links,
    ⟨.refl _, .refl _, List.nodup_nil, fun _ h => (List.not_mem_nil h).elim⟩⟩

/-- **The replies of a run.** As long as no packet to a mounted volume closes a file or writes nothing, no packet is
replied to twice, and in the end every packet is replied to. -/
theorem packets_replied_once (mem : Addr → UInt8) (pkts : Addr → DosPacket) (reqs : Addr → FsRequest)
    (locks : Addr → FsFileLock) (vols : Addr → Volume) (links : Links Node) {es : List Event}
    (h : Along (fun s e => (Steady s e ∧ ChunkEnds s e) ∧ Waits s e) step (start mem pkts reqs locks vols links) es) :
    ∃ t, runs step (start mem pkts reqs locks vols links) es = some t ∧ RepliedOnce t := by
  obtain ⟨t, ht, hs⟩ := runs_some Orderly (fun s e h hst => h.step hst.1.1 hst.1.2 hst.2) (orderly_start ..) h
  exact ⟨t, ht, hs.waiting.repliedOnce⟩

/-- A file is closed, and the response comes in. -/
def closeFile : List Event :=
  [mountFirst, .arrive 4096 100 ⟨.dos 0, .end, 0, 0, 7, 0, 0, 0⟩, .dos 4096 [some 200] none, .writerReply,
    respond 200 dosTrue 0]

/-- The packet is replied to twice. -/
theorem closeFile_twice : Along (fun s e => Steady s e ∧ ChunkEnds s e) step blank closeFile ∧
    ∃ t, runs step blank closeFile = some t ∧ ¬RepliedOnce t := by
  refine ⟨by decide +kernel, ?_⟩
  have hend : (runs step blank closeFile).map (fun t => (t.arrived, t.replied)) = some ([100], [100, 100]) := by
    decide +kernel
  obtain ⟨t, ht, hb⟩ := Option.map_eq_some_iff.1 hend
  obtain ⟨ha, hr⟩ := Prod.mk.inj hb
  refine ⟨t, ht, fun ho => ?_⟩
  have hcount := ho.most 100
  rw [ha, hr] at hcount
  exact absurd hcount (by decide)

/-- A write of 600 bytes and a read of ten, the data of which come in two parts. -/
def writeAndRead : List Event :=
  [mountFirst, .arrive 4096 100 ⟨.dos 0, .write, 0, 0, 7, 500, 600, 0⟩, .dos 4096 [some 200, some 300] none,
    .arrive 4096 101 ⟨.dos 0, .read, 0, 0, 7, 500, 10, 0⟩, .writerReply, .dos 4096 [some 400] none, .writerReply,
    respond 200 512 0, respond 300 88 minusOne, respond 400 5 0, respond 400 5 minusOne]

theorem writeAndRead_once : ∃ t, runs step blank writeAndRead = some t ∧ RepliedOnce t :=
  packets_replied_once _ _ _ _ _ _ (by decide +kernel)

end AmiPiBorg.Fs
