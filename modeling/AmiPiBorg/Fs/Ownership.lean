import AmiPiBorg.Fs.Steps

/-!
# The requests are freed once

A request is freed when its packet is replied to, by the response that causes the reply. So every request is freed once,
and into the pool that it came from, if every packet has one request (`requests_freed_once`). A write of more than 512
bytes has more, and of these only the last one is freed.
-/

set_option autoImplicit false

namespace AmiPiBorg.Fs

open ProgLib

variable {s s' : State} {v p r : Addr} {mems : List (Option Addr)} {lock : Option Addr} {res : FsResponse} {e : Event}

/-- The requests that are queued or awaiting a response, with their object types. -/
def awaiting (s : State) : List (Addr × UInt16) := (s.queued ++ s.unanswered).map fun r => (r, (s.reqs r).ot)

/-- **Every request is freed once**, after its last response, as the object that it is; until then it is live. -/
structure Owned (s : State) : Prop where
  once : s.allocated.Perm (s.freed ++ awaiting s)
  live : s.live.Perm (awaiting s)

/-- What the length and the last argument of a request tell. -/
structure Whole (s : State) : Prop where
  ot : ∀ r ∈ s.queued ++ s.unanswered, State.requestType (s.reqs r).length = (s.reqs r).ot
  last : ∀ r ∈ s.queued ++ s.unanswered, (s.reqs r).type = .write → (s.reqs r).arg3 = 0

/-- No packet to a mounted volume asks to write more than 512 bytes. -/
def ShortWrites (s : State) : Event → Prop
  | .dos v _ _ => ∀ m ∈ s.msgs.find? fun m => m.1 = v, (s.vols v).mounted = true → (s.pkts m.2).type = .write →
      State.bytesToWrite (s.pkts m.2) ≤ maxWriteLen
  | _ => True

instance (s : State) : (e : Event) → Decidable (ShortWrites s e)
  | .arrive .. | .dos .. | .response .. | .readerError | .writerReply | .poke .. => by unfold ShortWrites; infer_instance

/-! ## Replies and new requests -/

theorem Owned.congr (h : Owned s) (hr : s'.reqs = s.reqs) (hl : s'.live = s.live) (ha : s'.allocated = s.allocated)
    (hf : s'.freed = s.freed) (hp : (s'.queued ++ s'.unanswered).Perm (s.queued ++ s.unanswered)) : Owned s' := by
  have hmap : (awaiting s').Perm (awaiting s) := by
    unfold awaiting
    rw [hr]
    exact hp.map _
  refine ⟨?_, ?_⟩
  · rw [ha, hf]
    exact h.once.trans (hmap.symm.append_left _)
  · rw [hl]
    exact h.live.trans hmap.symm

theorem Whole.congr (h : Whole s) (hr : s'.reqs = s.reqs)
    (hp : ∀ a ∈ s'.queued ++ s'.unanswered, a ∈ s.queued ++ s.unanswered) : Whole s' :=
  ⟨fun a ha => by rw [hr]; exact h.ot a (hp a ha), fun a ha => by rw [hr]; exact h.last a (hp a ha)⟩

theorem Owned.quiet (h : Owned s) (hq : Quiet p s s') : Owned s' := by
  refine h.congr hq.reqs hq.live hq.allocated hq.freed ?_
  rw [hq.queued, hq.unanswered]

theorem Whole.quiet (h : Whole s) (hq : Quiet p s s') : Whole s' := by
  refine h.congr hq.reqs fun a ha => ?_
  rwa [hq.queued, hq.unanswered] at ha

/-- A reply without a request frees nothing. -/
theorem Owned.reply_none (h : Owned s) (v p : Addr) : Owned (s.replyToDosPacket v none p) := by
  rw [replyToDosPacket_eq]
  refine h.congr rfl (List.diff_nil _) rfl (List.append_nil _) (.refl _)

theorem Whole.reply (h : Whole s) (v : Addr) (r : Option Addr) (p : Addr) : Whole (s.replyToDosPacket v r p) := by
  rw [replyToDosPacket_eq]
  exact h.congr rfl fun _ ha => ha

/-- New requests are live. -/
theorem Owned.asks {t : Action} {new : List Addr} (h : Owned s) (ha : Asks v p t new s s')
    (hnew : ∀ r ∈ new, r ∉ s.queued ++ s.unanswered) : Owned s' := by
  have hmap : (awaiting s').Perm (awaiting s ++ new.map fun r => (r, (s'.reqs r).ot)) := by
    unfold awaiting
    refine (ha.perm.map _).trans ?_
    rw [List.map_append]
    refine .append_right _ ?_
    rw [List.map_congr_left fun r hr => ?_]
    rw [ha.reqs r fun hm => hnew r hm hr]
  constructor
  · rw [ha.allocated, ha.freed]
    refine (h.once.append_right _).trans ?_
    rw [List.append_assoc]
    exact hmap.symm.append_left _
  · rw [ha.live]
    exact (h.live.append_right _).trans hmap.symm

theorem Whole.asks {t : Action} {new : List Addr} (h : Whole s) (ha : Asks v p t new s s')
    (hnew : ∀ r ∈ new, r ∉ s.queued ++ s.unanswered) (hlast : t = .write → ∀ r ∈ new, (s'.reqs r).arg3 = 0) :
    Whole s' := by
  constructor
  · intro r hr
    obtain hr | hr := List.mem_append.1 (ha.perm.mem_iff.1 hr)
    · rw [ha.reqs r fun hm => hnew r hm hr]
      exact h.ot r hr
    · exact (ha.filled r hr).ot
  · intro r hr ht
    obtain hr | hr := List.mem_append.1 (ha.perm.mem_iff.1 hr)
    · rw [ha.reqs r fun hm => hnew r hm hr] at ht ⊢
      exact h.last r hr ht
    · exact hlast ((ha.filled r hr).type.symm.trans ht) r hr

theorem Outcome.owned (ho : Outcome v p mems lock s s') (hc : Core s) (hf : FreshReqs s mems) (h : Owned s)
    (hw : Whole s) (hs : (s.vols v).mounted = true → (s.pkts p).type = .write →
      State.bytesToWrite (s.pkts p) ≤ maxWriteLen) : Owned s' ∧ Whole s' := by
  cases ho with
  | replied s₁ hq _ _ he =>
    rw [he]
    exact ⟨(h.quiet hq).reply_none v p, (hw.quiet hq).reply v none p⟩
  | asked s₁ r hq _ hsub ha hne =>
    have hnew : ∀ a ∈ [r], a ∉ s₁.queued ++ s₁.unanswered := fun a hm =>
      (hq.core hc).fresh (hq.freshReqs hf) (hsub.subset hm)
    exact ⟨(h.quiet hq).asks ha hnew, (hw.quiet hq).asks ha hnew fun ht => absurd (sentAs_eq_write.1 ht) hne⟩
  | wrote s₁ new hq _ hsub ha ht hm hch =>
    have hnew : ∀ a ∈ new, a ∉ s₁.queued ++ s₁.unanswered := fun a hm =>
      (hq.core hc).fresh (hq.freshReqs hf) (hsub.subset hm)
    refine ⟨(h.quiet hq).asks ha hnew, (hw.quiet hq).asks ha hnew fun _ r hr => ?_⟩
    unfold Chunked at hch
    split at hch
    · rw [hch] at hr
      exact (List.not_mem_nil hr).elim
    · obtain ⟨init, l, rfl, -, hl, hone⟩ := hch
      rw [hone (hs hm ht)] at hr
      rw [List.mem_singleton.1 hr]
      exact hl
  | ended s₁ r hsub ha ht _ he =>
    have hnew : ∀ a ∈ [r], a ∉ s.queued ++ s.unanswered := fun a hm => hc.fresh hf (hsub.subset hm)
    rw [he]
    exact ⟨(h.asks ha hnew).reply_none v p, (hw.asks ha hnew fun he => by cases he).reply v none p⟩

/-! ## Responses -/

/-- A response replies to its packet unless more are to come. -/
theorem Answered.replies (ho : Answered v res p lock (s.unlinked res) s') (hfit : Fit s) (hw : Whole s)
    {m : State.Mounting} (hend : ChunkEnds s (.response res lock m)) (hv : ValidAddr res.req) (hu : res.req ∈ s.unanswered)
    (hp : (s.reqs res.req).pkt = p) :
    s.more res = true ∧ Quiet p (s.unlinked res) s' ∨
      s.more res = false ∧ ∃ s₁, Quiet p (s.unlinked res) s₁ ∧ s' = s₁.replyToDosPacket v (some res.req) p := by
  have hmem := List.mem_append_right s.queued hu
  have ht : (s.reqs res.req).type = (s.pkts p).type.sentAs := hp ▸ hfit _ hmem
  have hwr := (hend.resolve_left hv.2.1).resolve_left hv.2.2
  cases ho with
  | awaited hq _ hty hz =>
    left
    refine ⟨?_, hq⟩
    unfold State.more
    rw [decide_eq_true_eq]
    obtain hty | hty := hty
    · exact ⟨ht.trans (sentAs_eq_read.2 hty), hz⟩
    · -- the only request of a write is its last one, which is not answered with zero
      have htw := ht.trans (sentAs_eq_write.2 hty)
      exact absurd (hw.last _ hmem htw) ((hwr htw).1 hz)
  | replied s₁ hq _ hz he =>
    right
    exact ⟨hfit.last hu hp hz, s₁, hq, he⟩

theorem awaiting_unlinked (s : State) (res : FsResponse) (hm : s.more res = true) :
    awaiting (s.unlinked res) = awaiting s := by
  unfold awaiting
  rw [unlinked_more hm]
  rfl

/-- The last response takes the request off, and the reply frees it. -/
theorem awaiting_perm (hu : res.req ∈ s.unanswered) (hm : s.more res = false) :
    (awaiting s).Perm ((res.req, (s.reqs res.req).ot) :: awaiting (s.unlinked res)) := (unlinked_perm hu hm).map _

theorem Answered.owned (ho : Answered v res p lock (s.unlinked res) s') (hc : Core s) (hfit : Fit s) (h : Owned s)
    (hw : Whole s) {m : State.Mounting} (hend : ChunkEnds s (.response res lock m)) (hu : res.req ∈ s.unanswered)
    (hp : (s.reqs res.req).pkt = p) : Owned s' ∧ Whole s' := by
  have hv := hc.valid _ (List.mem_append_right s.queued hu)
  have hwu : Whole (s.unlinked res) := hw.congr rfl fun a ha => ((unlinked_sublist s res).append_left _).subset ha
  obtain ⟨hm, hq⟩ | ⟨hm, s₁, hq, rfl⟩ := ho.replies hfit hw hend hv hu hp
  · have hou : Owned (s.unlinked res) := by
      refine ⟨?_, ?_⟩ <;> rw [awaiting_unlinked s res hm]
      · exact h.once
      · exact h.live
    exact ⟨hou.quiet hq, hwu.quiet hq⟩
  · refine ⟨?_, (hwu.quiet hq).reply _ _ _⟩
    have hperm := awaiting_perm hu hm
    have haw : awaiting s₁ = awaiting (s.unlinked res) := by
      unfold awaiting
      rw [hq.queued, hq.unanswered, hq.reqs]
    have hrel : s₁.released (some res.req) = [(res.req, (s.reqs res.req).ot)] := by
      unfold State.released
      rw [hq.reqs, ← hw.ot _ (List.mem_append_right _ hu)]
      exact if_neg hv.1
    rw [replyToDosPacket_eq, hrel]
    constructor
    · change s₁.allocated.Perm (s₁.freed ++ [_] ++ awaiting s₁)
      rw [hq.allocated, hq.freed, haw, List.append_assoc, List.singleton_append]
      exact h.once.trans (hperm.append_left _)
    · change (s₁.live.diff [_]).Perm (awaiting s₁)
      rw [hq.live, haw, List.diff_cons, List.diff_nil]
      exact ((h.live.trans hperm).erase _).trans (by rw [List.erase_cons_head])

/-! ## Runs -/

/-- What holds of the requests all the time. -/
structure Sound (s : State) : Prop where
  core : Core s
  fit : Fit s
  owned : Owned s
  whole : Whole s

/-- **One step.** -/
theorem Sound.step (h : Sound s) (hst : Steady s e) (hend : ChunkEnds s e) (hsw : ShortWrites s e) :
    ∃ s', step s e = some s' ∧ Sound s' := by
  obtain ⟨hc, hfit, ho, hw⟩ := h
  obtain ⟨s', hs, hc', hfit'⟩ := hst.step hc hfit
  have hl := hst.1
  refine ⟨s', hs, ?_⟩
  suffices hh : Owned s' ∧ Whole s' from ⟨hc', hfit', hh.1, hh.2⟩
  cases e with
  | arrive v p pkt =>
    cases hs
    exact ⟨ho.congr rfl rfl rfl rfl (.refl _), hw.congr rfl fun _ ha => ha⟩
  | dos v mems lock =>
    obtain ⟨m, hm, hout⟩ := dos_outcome hc hl.2.1 hs
    exact hout.owned (hc.congr rfl rfl rfl rfl rfl) hl.2.1 (ho.congr rfl rfl rfl rfl (.refl _))
      (hw.congr rfl fun _ ha => ha) (hsw m hm)
  | response res lock m =>
    obtain ⟨vols, volList, rfl⟩ | ⟨hu, hans⟩ := response_outcome hl.2.2.1 hs
    · exact ⟨ho.congr rfl rfl rfl rfl (.refl _), hw.congr rfl fun _ ha => ha⟩
    · exact hans.owned hc hfit ho hw hend hu rfl
  | readerError =>
    cases hs
    exact ⟨ho.congr rfl rfl rfl rfl (.refl _), hw.congr rfl fun _ ha => ha⟩
  | writerReply =>
    obtain ⟨-, rfl⟩ | ⟨r, l, hq, rfl⟩ := writerReply_eq hc hs
    · exact ⟨ho.congr rfl rfl rfl rfl (.refl _), hw.congr rfl fun _ ha => ha⟩
    · have hperm := sending_perm hq
      exact ⟨ho.congr rfl rfl rfl rfl hperm, hw.congr rfl fun _ ha => hperm.mem_iff.1 ha⟩
  | poke mem locks =>
    cases hs
    exact ⟨ho.congr rfl rfl rfl rfl (.refl _), hw.congr rfl fun _ ha => ha⟩

theorem sound_start (mem : Addr → UInt8) (pkts : Addr → DosPacket) (reqs : Addr → FsRequest)
    (locks : Addr → FsFileLock) (vols : Addr → Volume) (links : Links Node) :
    Sound (start mem pkts reqs locks vols links) :=
  ⟨core_start .., fit_start mem pkts reqs locks vols links, ⟨.refl _, .refl _⟩,
    ⟨fun _ h => (List.not_mem_nil h).elim, fun _ h => (List.not_mem_nil h).elim⟩⟩

/-- **The requests of a run.** As long as no packet asks to write more than 512 bytes, every request is freed once. -/
theorem requests_freed_once (mem : Addr → UInt8) (pkts : Addr → DosPacket) (reqs : Addr → FsRequest)
    (locks : Addr → FsFileLock) (vols : Addr → Volume) (links : Links Node) {es : List Event}
    (h : Along (fun s e => (Steady s e ∧ ChunkEnds s e) ∧ ShortWrites s e) step (start mem pkts reqs locks vols links) es) :
    ∃ t, runs step (start mem pkts reqs locks vols links) es = some t ∧ Owned t := by
  obtain ⟨t, ht, hs⟩ := runs_some Sound (fun s e h hst => h.step hst.1.1 hst.1.2 hst.2) (sound_start ..) h
  exact ⟨t, ht, hs.owned⟩

/-- A write of 600 bytes, whose two chunks are answered. -/
def writeLong : List Event :=
  [mountFirst, .arrive 4096 100 ⟨.dos 0, .write, 0, 0, 7, 500, 600, 0⟩, .dos 4096 [some 200, some 300] none,
    .writerReply, respond 200 512 0, respond 300 88 minusOne]

/-- The first chunk is not freed. -/
theorem writeLong_leaks : Along (fun s e => Steady s e ∧ ChunkEnds s e) step blank writeLong ∧
    ∃ t, runs step blank writeLong = some t ∧ awaiting t = [] ∧ ¬Owned t := by
  refine ⟨by decide +kernel, ?_⟩
  have hend : (runs step blank writeLong).map (fun t => (awaiting t, t.allocated.length, t.freed.length)) =
      some ([], 2, 1) := by decide +kernel
  obtain ⟨t, ht, hb⟩ := Option.map_eq_some_iff.1 hend
  obtain ⟨haw, hb⟩ := Prod.mk.inj hb
  obtain ⟨hall, hfr⟩ := Prod.mk.inj hb
  refine ⟨t, ht, haw, fun ho => ?_⟩
  have hlen := ho.once.length_eq
  rw [haw, List.append_nil, hall, hfr] at hlen
  cases hlen

/-- A write of 500 bytes. -/
def writeShort : List Event :=
  [mountFirst, .arrive 4096 100 ⟨.dos 0, .write, 0, 0, 7, 500, 500, 0⟩, .dos 4096 [some 200] none, .writerReply,
    respond 200 500 minusOne]

theorem writeShort_freed : ∃ t, runs step blank writeShort = some t ∧ Owned t :=
  requests_freed_once _ _ _ _ _ _ (by decide +kernel)

end AmiPiBorg.Fs
