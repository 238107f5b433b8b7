import AmiPiBorg.Fs.InFlight

/-!
# The way to the handler

Requests go through `fs_Reqs` and are written one at a time: `fs_Writer` is with the server, or nothing waits. `Pipe` is
the client with an account of what was enqueued and of how often the server has returned `fs_Writer`; `pipeline` says
that requests are handed over in their order, each once, with all their bytes.
-/

set_option autoImplicit false

namespace AmiPiBorg.Fs

open ProgLib

variable {s : State} {r : Addr} {l : List Addr}

/-- The client, and what went through its queue. -/
structure Pipe where
  fs : State
  /-- Ghost: the requests that were passed to `FS_EnqueueRequest`, as they were filled in. -/
  enqueued : List (Addr × FsRequest)
  /-- Ghost: how often the server has returned `fs_Writer`. -/
  returned : Nat

namespace Pipe

/-- What happens to the queue. -/
inductive Event where
  /-- A request was filled in and is enqueued. -/
  | enqueue (r : Addr) (req : FsRequest)
  /-- `FS_ReceiveFromRemote` takes `fs_Writer`. -/
  | writerReply
  /-- `FS_ReceiveResponse` takes a request off `fs_SentReqs`, and its memory can be used again. -/
  | answered (r : Addr)

/-- One event. -/
def step (p : Pipe) : Event → Option Pipe
  | .enqueue r req => ((p.fs.setReq r req).enqueueRequest r).map fun fs =>
      { p with fs := fs, enqueued := p.enqueued ++ [(r, req)] }
  | .writerReply => { p.fs with writeReady := true }.sendReq.map fun fs => { p with fs := fs, returned := p.returned + 1 }
  | .answered r => some { p with
      fs := { p.fs with links := p.fs.links.remove (.request r), unanswered := p.fs.unanswered.erase r } }

/-- `fs_Writer` was handed to the server and has not come back. -/
def Outstanding (p : Pipe) : Prop := p.returned < p.fs.written.length

/-- A request is enqueued while it is on no list, and only what was handed over comes back. -/
def Legal (p : Pipe) : Event → Prop
  | .enqueue r req => r ∉ p.fs.queued ++ p.fs.unanswered ∧ req.length.toNat ≤ maxWriteLen
  | .writerReply => p.Outstanding
  | .answered r => r ∈ p.fs.unanswered

instance (p : Pipe) : (e : Event) → Decidable (Legal p e)
  | .enqueue .. => by unfold Legal; infer_instance
  | .writerReply => by unfold Legal Outstanding; infer_instance
  | .answered _ => by unfold Legal; infer_instance

/-- `r_Data` and `r_Length` for a request. -/
def extent (x : Addr × FsRequest) : Addr × UInt16 :=
  (x.1 + offsetofSelf.toUInt32, sizeofFsRequest + x.2.length - offsetofSelf)

/-- **Requests are handed over in order, and one at a time.** -/
structure Fifo (p : Pipe) : Prop where
  /-- `fs_WriteReady` tells whether the server has `fs_Writer`. -/
  ready_iff : p.fs.writeReady = false ↔ p.Outstanding
  /-- The server never gets it twice. -/
  once : p.fs.written.length ≤ p.returned + 1
  /-- What was handed over were the first requests, in their order. -/
  written : p.fs.written = (p.enqueued.take p.fs.written.length).map extent
  /-- The others wait on `fs_Reqs`. -/
  queued : p.fs.queued = (p.enqueued.drop p.fs.written.length).map Prod.fst
  reqs : Linked .null p.fs.links reqList (p.fs.queued.map .request)
  empty : p.fs.writeReady = true → p.fs.links.isEmpty reqList = true
  /-- From `r_Self` to the end of what was appended. -/
  extent : ∀ x ∈ p.enqueued, (extent x).1 = x.1 + offsetofSelf.toUInt32 ∧
    offsetofSelf.toNat + (extent x).2.toNat = sizeofFsRequest.toNat + x.2.length.toNat

/-! ## The lists -/

variable {enq : List (Addr × FsRequest)} {req : FsRequest}

/-- The lists of `s` are what the requests `enq` have become: the first of them were handed over, and the others
wait. -/
structure Lists (s : State) (enq : List (Addr × FsRequest)) : Prop where
  reqs : Linked .null s.links reqList (s.queued.map .request)
  sent : Sent s
  placed : Placed s
  order : ∃ done waiting, enq = done ++ waiting ∧ s.written = done.map extent ∧
    s.queued = waiting.map Prod.fst ∧ ∀ x ∈ waiting, s.reqs x.1 = x.2

/-- A request is filled in and goes to the end of the queue. -/
theorem Lists.enqueued (h : Lists s enq) (req : FsRequest) (hr : r ∉ s.queued ++ s.unanswered) :
    Lists ((s.setReq r req).enqueued r) (enq ++ [(r, req)]) := by
  obtain ⟨hrq, hru⟩ := not_or.1 fun hm => hr (List.mem_append.2 hm)
  obtain ⟨done, waiting, he, hw, hq, hreqs⟩ := h.order
  refine ⟨enqueued_linked (s := s.setReq r req) h.reqs hrq,
    Sent.enqueued (s := s.setReq r req) h.sent h.reqs h.placed.apart hru, ?_, done, waiting ++ [(r, req)], ?_, hw, ?_,
    fun x hx => ?_⟩
  · have hperm : (s.queued ++ [r] ++ s.unanswered).Perm (r :: (s.queued ++ s.unanswered)) := by
      rw [List.append_assoc]
      exact List.perm_middle
    exact hperm.nodup_iff.2 (List.nodup_cons.2 ⟨hr, h.placed⟩)
  · rw [he, List.append_assoc]
  · change s.queued ++ [r] = _
    rw [hq, List.map_append]
    rfl
  · change Function.update s.reqs r req x.1 = x.2
    rcases List.mem_append.1 hx with hx | hx
    · have hne : x.1 ≠ r := by
        intro heq
        apply hrq
        rw [hq, ← heq]
        exact List.mem_map_of_mem hx
      rw [Function.update_of_ne hne]
      exact hreqs x hx
    · rw [List.mem_singleton.1 hx, Function.update_self]

/-- The end of `fs_SentReqs` is on no other list. -/
theorem Lists.apart (h : Lists s enq) : s.links.pred .sentTail ∉ reqList.nodes (s.queued.map .request) :=
  fun hm => notMem_sent h.placed.apart hm h.sent.last

/-- The first request of the queue is handed over. -/
theorem Lists.sending (h : Lists s enq) (hq : s.queued = r :: l) : Lists (s.sending r) enq := by
  obtain ⟨done, waiting, he, hw, hqw, hreqs⟩ := h.order
  cases waiting with
  | nil => cases hq.symm.trans hqw
  | cons x waiting =>
    have hx := hq.symm.trans hqw
    rw [List.map_cons, List.cons.injEq] at hx
    obtain ⟨rfl, rfl⟩ := hx
    have happ : s.links.pred .sentTail ∉ reqList.nodes ((waiting.map Prod.fst).map .request) := by
      intro hm
      apply h.apart
      rw [hq]
      rw [Header.mem_nodes] at hm ⊢
      exact hm.imp_right fun h => h.imp_left (List.mem_cons_of_mem _)
    refine ⟨(Queues.sending h.reqs hq happ).reqs, h.sent.sending h.reqs hq h.placed.apart, ?_,
      done ++ [x], waiting, ?_, ?_, ?_, fun y hy => hreqs y (List.mem_cons_of_mem _ hy)⟩
    · exact (sending_perm hq).nodup_iff.2 h.placed
    · rw [he, List.append_assoc]
      rfl
    · change s.written ++ [_] = _
      rw [hw, List.map_append, List.map_singleton]
      unfold extent
      rw [hreqs x List.mem_cons_self]
    · change s.queued.erase x.1 = _
      rw [hq, List.erase_cons_head]

/-- A request leaves `fs_SentReqs`. -/
theorem Lists.answered (h : Lists s enq) (hu : r ∈ s.unanswered) :
    Lists { s with links := s.links.remove (.request r), unanswered := s.unanswered.erase r } enq := by
  obtain ⟨hp, hs⟩ := h.sent.neighbours hu
  refine ⟨h.reqs.remove_other (fun hm => ?_) (fun hm => ?_), h.sent.remove hu, ?_, h.order⟩
  · exact notMem_sent h.placed.apart hm hp
  · exact notMem_sent h.placed.apart hm hs
  · exact h.placed.sublist (List.erase_sublist.append_left s.queued)

/-! ## What the steps keep -/

/-- What holds between the events. -/
structure Flows (p : Pipe) : Prop where
  lists : Lists p.fs p.enqueued
  ready : p.fs.writeReady = true → p.fs.queued = []
  count : p.fs.written.length = p.returned + if p.fs.writeReady then 0 else 1
  short : ∀ x ∈ p.enqueued, x.2.length.toNat ≤ maxWriteLen

variable {p p' : Pipe} {e : Event} {es : List Event}

theorem Flows.outstanding_iff (h : p.Flows) : p.fs.writeReady = false ↔ p.Outstanding := by
  have hc := h.count
  unfold Outstanding
  cases hw : p.fs.writeReady with
  | true =>
    rw [hw, if_pos rfl] at hc
    simp [hc]
  | false =>
    rw [hw, if_neg Bool.false_ne_true] at hc
    simp [hc]

/-- **Every event is possible, and keeps the order.** -/
theorem Flows.step (h : p.Flows) (hl : p.Legal e) : ∃ p', Pipe.step p e = some p' ∧ p'.Flows := by
  cases e with
  | enqueue r req =>
    obtain ⟨hr, hlen⟩ := hl
    have he := h.lists.enqueued req hr
    have hshort : ∀ x ∈ p.enqueued ++ [(r, req)], x.2.length.toNat ≤ maxWriteLen := by
      intro x hx
      rcases List.mem_append.1 hx with hx | hx
      · exact h.short x hx
      · rw [List.mem_singleton.1 hx]
        exact hlen
    have hcount := h.count
    cases hw : p.fs.writeReady with
    | false =>
      have hs : (p.fs.setReq r req).enqueueRequest r = some ((p.fs.setReq r req).enqueued r) := by
        rw [enqueueRequest_eq]
        exact if_neg (by simpa [State.setReq] using hw)
      refine ⟨⟨(p.fs.setReq r req).enqueued r, p.enqueued ++ [(r, req)], p.returned⟩,
        by rw [Pipe.step, hs]; rfl, he, fun ht => ?_, hcount, hshort⟩
      rw [show p.fs.writeReady = true from ht] at hw
      cases hw
    | true =>
      have hq : ((p.fs.setReq r req).enqueued r).queued = [r] := by
        change p.fs.queued ++ [r] = [r]
        rw [h.ready hw, List.nil_append]
      have hs : (p.fs.setReq r req).enqueueRequest r = some (((p.fs.setReq r req).enqueued r).sending r) := by
        rw [enqueueRequest_eq, if_pos (by simpa [State.setReq] using hw)]
        exact sendReq_cons he.reqs hq
      refine ⟨⟨((p.fs.setReq r req).enqueued r).sending r, p.enqueued ++ [(r, req)], p.returned⟩,
        by rw [Pipe.step, hs]; rfl, he.sending hq, fun ht => (by cases ht), ?_, hshort⟩
      rw [hw] at hcount
      change (p.fs.written ++ [_]).length = p.returned + 1
      rw [List.length_append, hcount]
      rfl
  | writerReply =>
    have hw : p.fs.writeReady = false := h.outstanding_iff.2 hl
    have hcount := h.count
    rw [hw, if_neg Bool.false_ne_true] at hcount
    have ht : Lists { p.fs with writeReady := true } p.enqueued :=
      ⟨h.lists.reqs, h.lists.sent, h.lists.placed, h.lists.order⟩
    by_cases hq : p.fs.queued = []
    · exact ⟨⟨{ p.fs with writeReady := true }, p.enqueued, p.returned + 1⟩,
        by rw [Pipe.step, sendReq_nil ht.reqs hq]; rfl, ht, fun _ => hq, hcount, h.short⟩
    · obtain ⟨r, l, hq⟩ := List.exists_cons_of_ne_nil hq
      refine ⟨⟨State.sending { p.fs with writeReady := true } r, p.enqueued, p.returned + 1⟩,
        by rw [Pipe.step, sendReq_cons ht.reqs hq]; rfl, ht.sending hq, fun ht => (by cases ht), ?_, h.short⟩
      change (p.fs.written ++ [_]).length = p.returned + 1 + 1
      rw [List.length_append, hcount]
      rfl
  | answered r => exact ⟨_, rfl, h.lists.answered hl, h.ready, h.count, h.short⟩

/-- The extent of a request that is not too long. -/
theorem extent_length {x : Addr × FsRequest} (h : x.2.length.toNat ≤ maxWriteLen) :
    offsetofSelf.toNat + (extent x).2.toNat = sizeofFsRequest.toNat + x.2.length.toNat := by
  have h₁ : (sizeofFsRequest + x.2.length).toNat = sizeofFsRequest.toNat + x.2.length.toNat := by
    rw [UInt16.toNat_add]
    exact Nat.mod_eq_of_lt (by unfold maxWriteLen at h; rw [show sizeofFsRequest.toNat = 42 from rfl]; omega)
  have hle : offsetofSelf ≤ sizeofFsRequest + x.2.length := by
    rw [UInt16.le_iff_toNat_le, h₁]
    exact Nat.le_trans (by decide) (Nat.le_add_right _ _)
  unfold extent
  rw [UInt16.toNat_sub_of_le _ _ hle, h₁]
  have : offsetofSelf.toNat ≤ sizeofFsRequest.toNat := by decide
  omega

theorem Flows.fifo (h : p.Flows) : p.Fifo := by
  obtain ⟨done, waiting, he, hw, hq, -⟩ := h.lists.order
  have hlen : p.fs.written.length = done.length := by rw [hw, List.length_map]
  refine ⟨h.outstanding_iff, ?_, ?_, ?_, h.lists.reqs, fun ht => ?_, fun x hx => ⟨rfl, extent_length (h.short x hx)⟩⟩
  · rw [h.count]
    split <;> omega
  · rw [hlen, he, List.take_left, hw]
  · rw [hlen, he, List.drop_left, hq]
  · rw [h.lists.reqs.isEmpty_iff, h.ready ht, List.map_nil]

/-- The request that an event enqueues. -/
def Event.enqueues : Event → List (Addr × FsRequest)
  | .enqueue r req => [(r, req)]
  | .writerReply => []
  | .answered _ => []

/-- How often an event returns the writer. -/
def Event.returns : Event → Nat
  | .enqueue .. => 0
  | .writerReply => 1
  | .answered _ => 0

/-- The account is what the events of a run say. -/
theorem runs_account (h : runs step p es = some p') : p'.enqueued = p.enqueued ++ es.flatMap Event.enqueues ∧
    p'.returned = p.returned + (es.map Event.returns).sum := by
  induction es generalizing p with
  | nil =>
    cases h
    simp
  | cons e es ih =>
    obtain ⟨q, hq, hr⟩ := runs_cons_some h
    obtain ⟨h₁, h₂⟩ := ih hr
    have hstep : q.enqueued = p.enqueued ++ e.enqueues ∧ q.returned = p.returned + e.returns := by
      cases e with
      | enqueue r req =>
        obtain ⟨fs, -, rfl⟩ := Option.map_eq_some_iff.1 hq
        exact ⟨rfl, rfl⟩
      | writerReply =>
        obtain ⟨fs, -, rfl⟩ := Option.map_eq_some_iff.1 hq
        exact ⟨(List.append_nil _).symm, rfl⟩
      | answered r =>
        cases hq
        exact ⟨(List.append_nil _).symm, rfl⟩
    rw [h₁, h₂, hstep.1, hstep.2, List.flatMap_cons, List.map_cons, List.sum_cons, List.append_assoc, Nat.add_assoc]
    exact ⟨rfl, rfl⟩

/-- The client after `FS_CreateDevice`, with nothing enqueued. -/
def pipeStart (mem : Addr → UInt8) (pkts : Addr → DosPacket) (reqs : Addr → FsRequest) (locks : Addr → FsFileLock)
    (vols : Addr → Volume) (links : Links Node) : Pipe := ⟨start mem pkts reqs locks vols links, [], 0⟩

/-- **The pipeline is first in, first out, with one write outstanding**, in every run of calls of `FS_EnqueueRequest`,
replies of the writer and responses. -/
theorem pipeline (mem : Addr → UInt8) (pkts : Addr → DosPacket) (reqs : Addr → FsRequest) (locks : Addr → FsFileLock)
    (vols : Addr → Volume) (links : Links Node) {es : List Event}
    (hl : Along Legal step (pipeStart mem pkts reqs locks vols links) es) :
    ∃ p, runs step (pipeStart mem pkts reqs locks vols links) es = some p ∧
      p.enqueued = es.flatMap Event.enqueues ∧ p.returned = (es.map Event.returns).sum ∧ p.Fifo := by
  have hstart : (pipeStart mem pkts reqs locks vols links).Flows :=
    ⟨⟨(core_start mem pkts reqs locks vols links).queues.reqs, sent_start mem pkts reqs locks vols links, List.nodup_nil,
      [], [], rfl, rfl, rfl, fun _ h => by cases h⟩, fun _ => rfl, rfl, fun _ h => by cases h⟩
  obtain ⟨p, hp, hf⟩ := runs_some Flows (fun p e h hl => h.step hl) hstart hl
  obtain ⟨h₁, h₂⟩ := runs_account hp
  exact ⟨p, hp, h₁, h₂.trans (Nat.zero_add _), hf.fifo⟩

/-- Two requests, the second of which waits; the memory of the first is used again while it does. -/
def twoRequests : List Event :=
  let req (r : Addr) (length : UInt16) : FsRequest := ⟨0, 0, r, 0, 0, 0, 0, 0, .flush, length, [], otRequestMax⟩
  [.enqueue 200 (req 200 512), .enqueue 300 (req 300 0), .answered 200, .enqueue 200 (req 200 7), .writerReply,
    .writerReply, .writerReply]

theorem pipeline_two : ∃ p, runs step ⟨blank, [], 0⟩ twoRequests = some p ∧
    p.enqueued = twoRequests.flatMap Event.enqueues ∧ p.returned = (twoRequests.map Event.returns).sum ∧ p.Fifo := by
  unfold blank
  refine pipeline _ _ _ _ _ _ ?_
  decide +kernel

end Pipe

end AmiPiBorg.Fs
