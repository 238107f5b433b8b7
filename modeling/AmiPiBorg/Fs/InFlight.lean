import AmiPiBorg.Fs.Steps

/-!
# The list of the requests in flight

`FS_ReceiveResponse` takes the request off `fs_SentReqs` at every response, but a read has more than one. The list is
right as long as every response is the last one for its request (`inFlight_sound`): a response after which more are to
come takes off a request that is still in flight.
-/

set_option autoImplicit false

namespace AmiPiBorg.Fs

open ProgLib

variable {s s' : State} {v p r : Addr} {mems : List (Option Addr)} {lock : Option Addr} {res : FsResponse} {e : Event}

/-- `Remove` is applied to a request on `fs_SentReqs`. -/
def RemovesListed (s : State) : Event → Prop
  | .response res _ _ => res.req = mountVolumeKey ∨ res.req = unmountVolumeKey ∨
      ∃ l, Linked .null s.links sentReqList l ∧ .request res.req ∈ l
  | _ => True

/-- The step is defined, removes no request that is not on `fs_SentReqs`, and leaves there the requests that were sent
and not responded to for the last time. -/
def KeepsList (s : State) (e : Event) : Prop := RemovesListed s e ∧ ∃ s', step s e = some s' ∧ Sent s'

/-- Every response is the last one for its request. -/
def Final (s : State) : Event → Prop
  | .response res _ _ => res.req ∈ s.unanswered → s.more res = false
  | _ => True

instance (s : State) : (e : Event) → Decidable (Final s e)
  | .arrive .. | .dos .. | .response .. | .readerError | .writerReply | .poke .. => by unfold Final; infer_instance

/-! ## The two lists have no node in common -/

theorem notMem_reqNodes (hc : Core s) {a : Node} (ha : a ∈ sentReqList.nodes (s.unanswered.map .request)) :
    a ∉ reqNodes s := fun hm => notMem_sent hc.placed.apart hm ha

/-- The list around a request in flight. -/
theorem Sent.around (h : Sent s) (hu : r ∈ s.unanswered) : ∃ l l', s.unanswered = l ++ r :: l' ∧
    Linked .null s.links sentReqList (l.map .request ++ .request r :: l'.map .request) := by
  obtain ⟨l, l', hl⟩ := List.append_of_mem hu
  refine ⟨l, l', hl, ?_⟩
  rw [← List.map_cons, ← List.map_append, ← hl]
  exact h

/-- The neighbours of a request in flight are on the list. -/
theorem Sent.neighbours (h : Sent s) (hu : r ∈ s.unanswered) :
    s.links.pred (.request r) ∈ sentReqList.nodes (s.unanswered.map .request) ∧
      s.links.succ (.request r) ∈ sentReqList.nodes (s.unanswered.map .request) := by
  obtain ⟨l, l', hl, h'⟩ := h.around hu
  obtain ⟨hp, hs⟩ := h'.neighbours
  rw [hl]
  constructor
  · rw [List.map_append, Header.nodes, ← List.cons_append, ← List.cons_append]
    exact List.mem_append_left _ (List.mem_append_left _ hp)
  · rw [List.map_append, List.map_cons, Header.nodes, List.append_assoc]
    exact List.mem_cons_of_mem _ (List.mem_append_right _ (List.mem_cons_of_mem _ hs))

/-- The same goes for the end of the list. -/
theorem Sent.last (h : Sent s) : s.links.pred .sentTail ∈ sentReqList.nodes (s.unanswered.map .request) :=
  List.mem_append_left [Node.sentTail] (show _ ∈ Node.sentHead :: _ from h.pred_tail)

/-- While `fs_SentReqs` is right, links are written there only. -/
theorem Sent.apart (h : Sent s) (hc : Core s) : Apart s e := by
  cases e with
  | response res lock m =>
    intro hu
    obtain ⟨hp, hs⟩ := h.neighbours hu
    exact ⟨notMem_reqNodes hc hp, notMem_reqNodes hc hs⟩
  | writerReply => exact notMem_reqNodes hc h.last
  | _ => exact trivial

/-! ## The steps -/

theorem Sent.congr (h : Sent s) (hl : s'.links = s.links) (hu : s'.unanswered = s.unanswered) : Sent s' := by
  unfold Sent
  rw [hl, hu]
  exact h

theorem Sent.quiet (h : Sent s) (hq : Quiet p s s') : Sent s' :=
  h.congr hq.links hq.unanswered

theorem Sent.reply (h : Sent s) (v : Addr) (r : Option Addr) (p : Addr) : Sent (s.replyToDosPacket v r p) := by
  rw [replyToDosPacket_eq]
  exact h

theorem Outcome.sent (ho : Outcome v p mems lock s s') (h : Sent s) : Sent s' := by
  cases ho with
  | replied s₁ hq _ _ he =>
    rw [he]
    exact (h.quiet hq).reply _ _ _
  | asked s₁ r hq _ _ ha _ => exact ha.sent (h.quiet hq)
  | wrote s₁ new hq _ _ ha _ _ _ => exact ha.sent (h.quiet hq)
  | ended s₁ r _ ha _ _ he =>
    rw [he]
    exact (ha.sent h).reply _ _ _

/-- After `Remove`, the list has all requests in flight but one. -/
theorem Sent.remove (h : Sent s) (hu : r ∈ s.unanswered) :
    Linked .null (s.links.remove (.request r)) sentReqList ((s.unanswered.erase r).map .request) := by
  have hnd : s.unanswered.Nodup := List.Nodup.of_map _ h.nodup_list
  obtain ⟨l, l', hl, h'⟩ := h.around hu
  have hr : r ∉ l := by
    rw [hl] at hnd
    exact fun hm => (List.nodup_append.1 hnd).2.2 r hm r List.mem_cons_self rfl
  rw [hl, List.erase_append_right _ hr, List.erase_cons_head, List.map_append]
  exact h'.remove

theorem Answered.links (ho : Answered v res p lock s s') : s'.links = s.links ∧ s'.unanswered = s.unanswered := by
  cases ho with
  | awaited hq _ _ _ => exact ⟨hq.links, hq.unanswered⟩
  | replied s₁ hq _ _ he =>
    rw [he, replyToDosPacket_eq]
    exact ⟨hq.links, hq.unanswered⟩

/-- **One step** with no response but last ones. -/
theorem Sent.step (h : Sent s) (hc : Core s) (hl : Legal s e) (hf : Final s e) (hs : step s e = some s') : Sent s' := by
  cases e with
  | arrive v p pkt =>
    cases hs
    exact h
  | dos v mems lock =>
    obtain ⟨m, -, ho⟩ := dos_outcome hc hl.2.1 hs
    exact ho.sent h
  | response res lock m =>
    obtain ⟨vols, volList, rfl⟩ | ⟨hu, ho⟩ := response_outcome hl.2.2.1 hs
    · exact h
    · obtain ⟨hlinks, hun⟩ := ho.links
      refine Sent.congr (s := s.unlinked res) ?_ hlinks hun
      unfold Sent State.unlinked
      rw [hf hu]
      exact h.remove hu
  | readerError =>
    cases hs
    exact h
  | writerReply =>
    obtain ⟨-, rfl⟩ | ⟨r, l, hq, rfl⟩ := writerReply_eq hc hs
    · exact h
    · exact Sent.sending (s := { s with writeReady := true }) h hc.queues.reqs hq hc.placed.apart
  | poke mem locks =>
    cases hs
    exact h

/-- **One step leaves the list right** if and only if it is no response after which more are to come. -/
theorem keepsList_iff (hc : Core s) (h : Sent s) (hl : Legal s e) (hsafe : Safe s e) : KeepsList s e ↔ Final s e := by
  constructor
  · rintro ⟨-, s', hs, h'⟩
    cases e with
    | response res lock m =>
      intro hu
      by_contra hm
      rw [Bool.not_eq_false] at hm
      obtain ⟨hk, -⟩ | ⟨hk, -⟩ | ⟨-, hr⟩ := receiveResponse_cases hs
      · exact (hc.valid _ (List.mem_append_right _ hu)).2.1 hk
      · exact (hc.valid _ (List.mem_append_right _ hu)).2.2 hk
      · obtain ⟨hlinks, hun⟩ := (receiveRemoteMessage_outcome rfl hr).links
        unfold Sent at h'
        rw [hlinks, hun] at h'
        have hboth : (s.unlinked res).unanswered.map Node.request = (s.unanswered.erase res.req).map .request :=
          Linked.unique h' (h.remove hu)
        have hlen := congrArg List.length hboth
        unfold State.unlinked at hlen
        rw [hm, List.length_map, List.length_map, List.length_erase_of_mem hu] at hlen
        have := List.length_pos_of_mem hu
        dsimp only at hlen
        rw [if_pos rfl] at hlen
        omega
    | _ => exact trivial
  · intro hf
    obtain ⟨s', hs⟩ := step_defined hc hl hsafe
    refine ⟨?_, s', hs, h.step hc hl hf hs⟩
    cases e with
    | response res lock m =>
      obtain hk | hk | hu := hl.2.2.1
      · exact .inl hk
      · exact .inr (.inl hk)
      · exact .inr (.inr ⟨_, h, List.mem_map_of_mem hu⟩)
    | _ => exact trivial

/-- **The list of the requests in flight.** In a run in which nothing goes through a null pointer, `fs_SentReqs` is right
after every step, and `Remove` is never applied to a node that is not on it, if and only if every response is the last
one for its request. -/
theorem inFlight_sound (mem : Addr → UInt8) (pkts : Addr → DosPacket) (reqs : Addr → FsRequest)
    (locks : Addr → FsFileLock) (vols : Addr → Volume) (links : Links Node) {es : List Event}
    (hl : Along (fun s e => Legal s e ∧ Safe s e) step (start mem pkts reqs locks vols links) es) :
    Along KeepsList step (start mem pkts reqs locks vols links) es ↔
      Along Final step (start mem pkts reqs locks vols links) es := by
  refine along_iff (fun s => Core s ∧ Sent s) (fun s e h hl => keepsList_iff h.1 h.2 hl.1 hl.2)
    (fun s e s' h hl hf hs => ?_) ⟨core_start .., sent_start ..⟩ hl
  refine ⟨h.1.step hl.1 (h.2.apart h.1) ?_ hs, h.2.step h.1 hl.1 hf hs⟩
  cases e with
  | response res lock m =>
    intro hu hm
    rw [hf hu] at hm
    cases hm
  | _ => exact trivial

/-- A read of ten bytes, up to the first response. -/
def readTen : List Event :=
  [mountFirst, .arrive 4096 100 ⟨.dos 0, .read, 0, 0, 7, 500, 10, 0⟩, .dos 4096 [some 200] none, .writerReply]

/-- The first half of the data comes in. -/
theorem readTen_partial : Along (fun s e => Legal s e ∧ Safe s e) step blank (readTen ++ [respond 200 5 0]) ∧
    ¬Along KeepsList step blank (readTen ++ [respond 200 5 0]) := by
  constructor
  · decide +kernel
  · intro h
    -- the request has left the list, but more responses to it are to come
    have hend : (runs step blank (readTen ++ [respond 200 5 0])).map (fun t =>
        (t.links.pred .sentTail, t.unanswered)) = some (.sentHead, [200]) := by decide +kernel
    obtain ⟨t, ht, hpred⟩ := Option.map_eq_some_iff.1 hend
    obtain ⟨s, hs, ht'⟩ : ∃ s, runs step blank readTen = some s ∧ step s (respond 200 5 0) = some t := by
      rw [runs_append] at ht
      obtain ⟨s, hs, ht⟩ := Option.bind_eq_some_iff.1 ht
      obtain ⟨u, hu, hnil⟩ := runs_cons_some ht
      cases hnil
      exact ⟨s, hs, hu⟩
    obtain ⟨-, t', ht'', hsent⟩ := ((along_append.1 h).2 s hs).1
    rw [ht'] at ht''
    cases ht''
    obtain ⟨hp, hu⟩ := Prod.mk.inj hpred
    unfold Sent at hsent
    rw [hu] at hsent
    have hlast : t.links.pred .sentTail = .request 200 := Linked.pred_tail_concat (l := []) hsent
    rw [hp] at hlast
    cases hlast

theorem readTen_whole : Along KeepsList step blank (readTen ++ [respond 200 10 minusOne]) :=
  (inFlight_sound _ _ _ _ _ _ (by decide +kernel)).2 (by decide +kernel)

end AmiPiBorg.Fs
