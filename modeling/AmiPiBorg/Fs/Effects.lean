import Mathlib.Data.List.ReduceOption
import AmiPiBorg.Fs.Actions

/-!
# What the actions do to the requests

An action does one of a few things: it replies to the packet at once, or it gets new requests for the packet and
enqueues them (`Asks`), or both. Everything else that it does concerns the packet and the locks (`Quiet`). The same
goes for responses, which reply to the packet or not.
-/

set_option autoImplicit false

namespace AmiPiBorg.Fs

open ProgLib

variable {s s' s'' : State} {v p r : Addr} {t : Action} {new new' : List Addr}

/-! ## Memory -/

@[simp] theorem length_bytesAt (mem : Addr → UInt8) (a : Addr) (n : Nat) : (bytesAt mem a n).length = n := by
  simp [bytesAt]

theorem bytesAt_append (mem : Addr → UInt8) (a : Addr) (m n : Nat) :
    bytesAt mem a (m + n) = bytesAt mem a m ++ bytesAt mem (a + UInt32.ofNat m) n := by
  simp [bytesAt, List.range_add, List.map_append, Function.comp_def, UInt32.ofNat_add, UInt32.add_assoc]

/-! ## The queue -/

/-- `fs_Reqs` has the requests that wait, which are none while the writer is free. -/
structure Queues (s : State) : Prop where
  reqs : Linked .null s.links reqList (s.queued.map .request)
  ready : s.writeReady = true → s.queued = []
  /-- The end of `fs_SentReqs` does not lead into the header of `fs_Reqs`. -/
  apart : s.links.pred .sentTail ∉ reqList.nodes []

/-- `fs_SentReqs` has the requests that were sent and not responded to for the last time. -/
def Sent (s : State) : Prop := Linked .null s.links sentReqList (s.unanswered.map .request)

theorem request_mem_nodes {l : List Addr} : Node.request r ∈ reqList.nodes (l.map .request) ↔ r ∈ l := by
  simp [reqList]

theorem request_mem_sent {l : List Addr} : Node.request r ∈ sentReqList.nodes (l.map .request) ↔ r ∈ l := by
  simp [sentReqList]

theorem sentTail_notMem (l : List Addr) : Node.sentTail ∉ reqList.nodes (l.map .request) := by simp [reqList]

theorem reqsTail_notMem (l : List Addr) : Node.reqsTail ∉ sentReqList.nodes (l.map .request) := by simp [sentReqList]

/-- The nodes of `fs_Reqs` are not on `fs_SentReqs`. -/
theorem notMem_sent {l l' : List Addr} (h : ∀ r ∈ l, r ∉ l') {a : Node} (ha : a ∈ reqList.nodes (l.map .request)) :
    a ∉ sentReqList.nodes (l'.map .request) := by
  cases a with
  | request r => exact fun hm => h r (request_mem_nodes.1 ha) (request_mem_sent.1 hm)
  | _ => simp_all [reqList, sentReqList]

/-- What `FS_SendReq` leaves behind when `r` is the first request of the queue. -/
def State.sending (s : State) (r : Addr) : State :=
  { s with
    links := (s.links.remove (.request r)).addTail sentReqList (.request r)
    written := s.written ++ [(r + offsetofSelf.toUInt32, sizeofFsRequest + (s.reqs r).length - offsetofSelf)]
    writeReady := false
    queued := s.queued.erase r
    unanswered := s.unanswered ++ [r] }

theorem sendReq_nil (hl : Linked .null s.links reqList (s.queued.map .request)) (h : s.queued = []) :
    s.sendReq = some s := by
  unfold State.sendReq
  exact if_pos (hl.isEmpty_iff.2 (by rw [h]; rfl))

theorem sendReq_cons {l : List Addr} (hl : Linked .null s.links reqList (s.queued.map .request))
    (h : s.queued = r :: l) : s.sendReq = some (s.sending r) := by
  have hne : ¬s.links.isEmpty reqList = true := fun he => by
    have := hl.isEmpty_iff.1 he
    rw [h] at this
    cases this
  rw [h] at hl
  unfold State.sendReq
  rw [if_neg hne, hl.remHead]
  rfl

/-- The first request of the queue is sent. -/
theorem Queues.sending {l : List Addr} (hl : Linked .null s.links reqList (s.queued.map .request))
    (h : s.queued = r :: l) (hp : s.links.pred .sentTail ∉ reqList.nodes (l.map .request)) :
    Queues (s.sending r) := by
  rw [h] at hl
  have hr : r ∉ l := fun hm => (List.nodup_cons.1 hl.nodup_list).1 (List.mem_map_of_mem hm)
  have he : s.queued.erase r = l := by rw [h, List.erase_cons_head]
  have hsucc : s.links.succ (.request r) ≠ .sentTail := fun he => by
    have hm := (Linked.neighbours (u := []) hl).2
    rw [he] at hm
    exact sentTail_notMem l (List.mem_cons_of_mem _ hm)
  constructor
  · rw [State.sending, he]
    apply (Linked.remove (u := []) hl).addTail_other
    · rw [List.nil_append, request_mem_nodes]
      exact hr
    · exact sentTail_notMem l
    · change (s.links.join _ _).pred .sentTail ∉ _
      rw [Links.join_pred_of_ne hsucc.symm]
      exact hp
  · intro hw
    cases hw
  · change ((Links.join _ (Node.request r) Node.sentTail).join _ (Node.request r)).pred Node.sentTail ∉ _
    rw [Links.join_pred_of_ne (by simp), Links.join_pred_self]
    simp [reqList]

theorem Sent.sending {l : List Addr} (hs : Sent s) (hl : Linked .null s.links reqList (s.queued.map .request))
    (h : s.queued = r :: l) (hd : ∀ a ∈ s.queued, a ∉ s.unanswered) : Sent (s.sending r) := by
  have hm := Linked.neighbours (u := []) (h ▸ hl)
  have hrem : Linked .null (s.links.remove (.request r)) sentReqList (s.unanswered.map .request) := by
    apply hs.remove_other
    · refine notMem_sent hd ?_
      rw [h, List.mem_singleton.1 hm.1]
      exact List.mem_cons_self
    · refine notMem_sent hd ?_
      rw [h]
      exact List.mem_cons_of_mem _ (List.mem_cons_of_mem _ hm.2)
  unfold Sent
  rw [State.sending, List.map_append]
  refine hrem.addTail ?_ (by simp)
  rw [request_mem_sent]
  exact hd r (by rw [h]; exact List.mem_cons_self)

/-- What `FS_EnqueueRequest` does before it looks at the writer. -/
def State.enqueued (s : State) (r : Addr) : State :=
  { s with links := s.links.addTail reqList (.request r), queued := s.queued ++ [r] }

theorem enqueueRequest_eq (s : State) (r : Addr) :
    s.enqueueRequest r = if s.writeReady then (s.enqueued r).sendReq else some (s.enqueued r) := rfl

theorem enqueued_linked (hl : Linked .null s.links reqList (s.queued.map .request)) (hr : r ∉ s.queued) :
    Linked .null (s.enqueued r).links reqList ((s.enqueued r).queued.map .request) := by
  unfold State.enqueued
  rw [List.map_append]
  exact hl.addTail (fun hm => hr (request_mem_nodes.1 hm)) (by simp)

theorem enqueued_pred_sentTail (s : State) (r : Addr) : (s.enqueued r).links.pred .sentTail = s.links.pred .sentTail := by
  unfold State.enqueued Links.addTail
  rw [Links.join_pred_of_ne (by simp), Links.join_pred_of_ne (by simp [reqList])]

theorem Sent.enqueued (hs : Sent s) (hl : Linked .null s.links reqList (s.queued.map .request))
    (hd : ∀ a ∈ s.queued, a ∉ s.unanswered) (hr : r ∉ s.unanswered) : Sent (s.enqueued r) := by
  apply Linked.addTail_other hs
  · rw [request_mem_sent]
    exact hr
  · exact reqsTail_notMem _
  · exact notMem_sent hd (List.mem_append_left [Node.reqsTail] hl.pred_tail)

/-- **`FS_EnqueueRequest`**: the request is sent at once or waits in the queue. -/
theorem Queues.enqueueRequest (hq : Queues s) (hr : r ∉ s.queued) : ∃ s', s.enqueueRequest r = some s' ∧ Queues s' ∧
    s' = if s.writeReady then (s.enqueued r).sending r else s.enqueued r := by
  have hl := enqueued_linked hq.reqs hr
  rw [enqueueRequest_eq]
  cases hw : s.writeReady with
  | false =>
    refine ⟨_, rfl, ⟨hl, fun h => ?_, ?_⟩, rfl⟩
    · rw [show s.writeReady = true from h] at hw
      cases hw
    · rw [enqueued_pred_sentTail]
      exact hq.apart
  | true =>
    have he : (s.enqueued r).queued = [r] := by
      unfold State.enqueued
      rw [hq.ready hw]
      rfl
    refine ⟨_, sendReq_cons hl he, Queues.sending hl he ?_, rfl⟩
    rw [enqueued_pred_sentTail]
    exact hq.apart

/-- A request goes behind those that were enqueued before it, whether they have been sent or not. -/
theorem Queues.enqueueRequest_order (hq : Queues s) (hr : r ∉ s.queued) (h : s.enqueueRequest r = some s') :
    s'.unanswered ++ s'.queued = s.unanswered ++ s.queued ++ [r] := by
  obtain ⟨t, ht, -, he⟩ := hq.enqueueRequest hr
  cases h.symm.trans ht
  rw [he]
  split
  case isTrue hw =>
    show (s.unanswered ++ [r]) ++ (s.queued ++ [r]).erase r = _
    rw [hq.ready hw, List.nil_append, List.erase_cons_head, List.append_nil, List.append_nil]
  case isFalse => exact (List.append_assoc ..).symm

/-! ## New requests -/

/-- What `FS_AllocRequest` writes into the memory that it gets. -/
def newRequest (s : State) (v p r : Addr) (t : Action) (length : UInt16) : FsRequest where
  volume := v
  pkt := p
  self := r
  arg1 := 0
  arg2 := 0
  arg3 := 0
  arg4 := 0
  volId := (s.vols v).id
  type := t
  length := 0
  bytes := []
  ot := State.requestType length

/-- The request `r` is allocated and filled in. -/
def State.allocating (s : State) (r : Addr) (req : FsRequest) : State :=
  { s with
    reqs := Function.update s.reqs r req
    live := s.live ++ [(r, req.ot)], allocated := s.allocated ++ [(r, req.ot)] }

/-- What is known of a request that was filled in. -/
structure Filled (v p : Addr) (t : Action) (req : FsRequest) : Prop where
  volume : req.volume = v
  pkt : req.pkt = p
  type : req.type = t
  /-- Its length tells the object type that it was allocated from. -/
  ot : State.requestType req.length = req.ot

/-- A request is filled in with `length` more bytes. -/
structure Keeps (length : UInt16) (req req' : FsRequest) : Prop where
  volume : req'.volume = req.volume
  pkt : req'.pkt = req.pkt
  type : req'.type = req.type
  ot : req'.ot = req.ot
  length : req'.length = req.length + length

theorem Keeps.trans {l l' : UInt16} {req req' req'' : FsRequest} (h : Keeps l req req') (h' : Keeps l' req' req'') :
    Keeps (l + l') req req'' :=
  ⟨h'.volume.trans h.volume, h'.pkt.trans h.pkt, h'.type.trans h.type, h'.ot.trans h.ot, by
    rw [h'.length, h.length, UInt16.add_assoc]⟩

theorem Keeps.of_length_eq {req req' : FsRequest} (hv : req'.volume = req.volume) (hp : req'.pkt = req.pkt)
    (ht : req'.type = req.type) (ho : req'.ot = req.ot) (hl : req'.length = req.length) : Keeps 0 req req' :=
  ⟨hv, hp, ht, ho, hl.trans (UInt16.add_zero _).symm⟩

theorem FsRequest.appendArg_keeps {req req' : FsRequest} {arg length : UInt16} {data : List UInt8}
    (h : req.appendArg arg length data = some req') : Keeps length req req' := by
  unfold FsRequest.appendArg at h
  split at h
  · cases h
  · cases h
    split <;> exact ⟨rfl, rfl, rfl, rfl, rfl⟩

/-- The ways in which the actions fill in a request, and how many bytes they append. -/
def Fills (length : UInt16) (fill : FsRequest → Option FsRequest) : Prop :=
  ∀ req req', fill req = some req' → Keeps length req req'

theorem Fills.filled {length : UInt16} {fill : FsRequest → Option FsRequest} {req : FsRequest}
    (h : Fills length fill) (hr : fill (newRequest s v p r t length) = some req) : Filled v p t req := by
  obtain ⟨hv, hp, ht, ho, hl⟩ := h _ _ hr
  refine ⟨hv, hp, ht, ?_⟩
  rw [hl, ho]
  exact congrArg State.requestType (UInt16.zero_add length)

theorem request_eq {length : UInt16} {fill : FsRequest → Option FsRequest} {req : FsRequest}
    (hreq : fill (newRequest s v p r t length) = some req) (hot : req.ot = State.requestType length) :
    s.request v p t length (some r) fill = (s.allocating r req).enqueueRequest r := by
  have hself : (Function.update s.reqs r (newRequest s v p r t length)) r = newRequest s v p r t length :=
    Function.update_self ..
  unfold State.request State.allocRequest State.setReq State.allocating
  dsimp only
  rw [hot]
  unfold newRequest at hself hreq
  rw [hself, hreq]
  dsimp only
  rw [Function.update_idem]

theorem request_none {length : UInt16} {fill : FsRequest → Option FsRequest}
    (hreq : fill (newRequest s v p r t length) = none) : s.request v p t length (some r) fill = none := by
  have hself : (Function.update s.reqs r (newRequest s v p r t length)) r = newRequest s v p r t length :=
    Function.update_self ..
  unfold State.request State.allocRequest State.setReq
  dsimp only
  unfold newRequest at hself hreq
  rw [hself, hreq]

theorem Queues.allocating (hq : Queues s) (r : Addr) (req : FsRequest) : Queues (s.allocating r req) :=
  ⟨hq.reqs, hq.ready, hq.apart⟩

/-- **A request that is asked for** is allocated, filled in, and enqueued. -/
theorem request_some {length : UInt16} {mem : Option Addr} {fill : FsRequest → Option FsRequest} (hq : Queues s)
    (hf : ∀ r ∈ mem, r ∉ s.queued) (hfill : Fills length fill) (h : s.request v p t length mem fill = some s') :
    ∃ r req, mem = some r ∧ Filled v p t req ∧ fill (newRequest s v p r t length) = some req ∧ Queues s' ∧
      s' = if s.writeReady then ((s.allocating r req).enqueued r).sending r else (s.allocating r req).enqueued r := by
  cases mem with
  | none => cases h
  | some r =>
    cases hreq : fill (newRequest s v p r t length) with
    | none =>
      rw [request_none hreq] at h
      cases h
    | some req =>
      obtain ⟨u, hu, hqu, heq⟩ := (hq.allocating r req).enqueueRequest (hf r rfl)
      rw [request_eq hreq (hfill _ _ hreq).ot, hu] at h
      cases h
      exact ⟨r, req, rfl, hfill.filled hreq, hreq, hqu, heq⟩

/-! ## What an action asks for -/

/-- What a request does not change. -/
structure Around where
  mem : Addr → UInt8
  pkts : Addr → DosPacket
  locks : Addr → FsFileLock
  vols : Addr → Volume
  volList : List Addr
  reading : Bool
  msgs : List (Addr × Addr)
  freed : List (Addr × UInt16)
  out : List Addr
  arrived : List Addr
  replied : List Addr
  liveLocks : List (Addr × Addr)
  allocatedLocks : List (Addr × Addr)
  freedLocks : List (Addr × Addr)
  givenLocks : List (Addr × Addr)

def State.around (s : State) : Around where
  mem := s.mem
  pkts := s.pkts
  locks := s.locks
  vols := s.vols
  volList := s.volList
  reading := s.reading
  msgs := s.msgs
  freed := s.freed
  out := s.out
  arrived := s.arrived
  replied := s.replied
  liveLocks := s.liveLocks
  allocatedLocks := s.allocatedLocks
  freedLocks := s.freedLocks
  givenLocks := s.givenLocks

/-- Whatever the links are, sending changes only the two lists and what the writer is at. -/
theorem sendReq_frame (h : s.sendReq = some s') : ∃ links written ready queued unanswered, s' = { s with
    links := links, written := written, writeReady := ready, queued := queued, unanswered := unanswered } := by
  unfold State.sendReq at h
  split at h
  · cases h
    exact ⟨_, _, _, _, _, rfl⟩
  · split at h
    · cases h
      exact ⟨_, _, _, _, _, rfl⟩
    · cases h

theorem enqueueRequest_frame (h : s.enqueueRequest r = some s') : ∃ links written ready queued unanswered,
    s' = { s with
      links := links, written := written, writeReady := ready, queued := queued, unanswered := unanswered } := by
  rw [enqueueRequest_eq] at h
  split at h
  · obtain ⟨links, written, ready, queued, unanswered, rfl⟩ := sendReq_frame h
    exact ⟨_, _, _, _, _, rfl⟩
  · cases h
    exact ⟨_, _, _, _, _, rfl⟩

/-- Enqueueing a request changes nothing around it, and no request. -/
theorem enqueueRequest_around (h : s.enqueueRequest r = some s') : s'.around = s.around ∧ s'.reqs = s.reqs := by
  obtain ⟨links, written, ready, queued, unanswered, rfl⟩ := enqueueRequest_frame h
  exact ⟨rfl, rfl⟩

/-- From `s` to `s'`, the requests `new` were allocated for the packet `p`, filled in, and enqueued. -/
structure Asks (v p : Addr) (t : Action) (new : List Addr) (s s' : State) : Prop where
  around : s'.around = s.around
  perm : (s'.queued ++ s'.unanswered).Perm (s.queued ++ s.unanswered ++ new)
  live : s'.live = s.live ++ new.map fun r => (r, (s'.reqs r).ot)
  allocated : s'.allocated = s.allocated ++ new.map fun r => (r, (s'.reqs r).ot)
  reqs : ∀ r ∉ new, s'.reqs r = s.reqs r
  filled : ∀ r ∈ new, Filled v p t (s'.reqs r)
  queues : Queues s'
  sent : Sent s → Sent s'

theorem Asks.pkts (h : Asks v p t new s s') : s'.pkts = s.pkts := congrArg Around.pkts h.around
theorem Asks.locks (h : Asks v p t new s s') : s'.locks = s.locks := congrArg Around.locks h.around
theorem Asks.vols (h : Asks v p t new s s') : s'.vols = s.vols := congrArg Around.vols h.around
theorem Asks.volList (h : Asks v p t new s s') : s'.volList = s.volList := congrArg Around.volList h.around
theorem Asks.msgs (h : Asks v p t new s s') : s'.msgs = s.msgs := congrArg Around.msgs h.around
theorem Asks.freed (h : Asks v p t new s s') : s'.freed = s.freed := congrArg Around.freed h.around
theorem Asks.out (h : Asks v p t new s s') : s'.out = s.out := congrArg Around.out h.around
theorem Asks.arrived (h : Asks v p t new s s') : s'.arrived = s.arrived := congrArg Around.arrived h.around
theorem Asks.replied (h : Asks v p t new s s') : s'.replied = s.replied := congrArg Around.replied h.around
theorem Asks.liveLocks (h : Asks v p t new s s') : s'.liveLocks = s.liveLocks := congrArg Around.liveLocks h.around
theorem Asks.allocatedLocks (h : Asks v p t new s s') : s'.allocatedLocks = s.allocatedLocks :=
  congrArg Around.allocatedLocks h.around
theorem Asks.freedLocks (h : Asks v p t new s s') : s'.freedLocks = s.freedLocks := congrArg Around.freedLocks h.around
theorem Asks.givenLocks (h : Asks v p t new s s') : s'.givenLocks = s.givenLocks := congrArg Around.givenLocks h.around

theorem Asks.refl (hq : Queues s) : Asks v p t [] s s where
  around := rfl
  perm := by rw [List.append_nil]
  live := (List.append_nil _).symm
  allocated := (List.append_nil _).symm
  reqs _ _ := rfl
  filled _ h := (List.not_mem_nil h).elim
  queues := hq
  sent := id

/-- First some requests, and then some more. -/
theorem Asks.trans (h : Asks v p t new s s') (h' : Asks v p t new' s' s'') (hd : ∀ r ∈ new, r ∉ new') :
    Asks v p t (new ++ new') s s'' := by
  have hreqs : ∀ r ∈ new, s''.reqs r = s'.reqs r := fun r hr => h'.reqs r (hd r hr)
  have hmap : (new.map fun r => (r, (s'.reqs r).ot)) = new.map fun r => (r, (s''.reqs r).ot) :=
    List.map_congr_left fun r hr => by rw [hreqs r hr]
  constructor
  · exact h'.around.trans h.around
  · rw [← List.append_assoc]
    exact h'.perm.trans (h.perm.append_right new')
  · rw [h'.live, h.live, hmap, List.map_append, List.append_assoc]
  · rw [h'.allocated, h.allocated, hmap, List.map_append, List.append_assoc]
  · intro r hr
    obtain ⟨hn, hn'⟩ := not_or.1 (fun hm => hr (List.mem_append.2 hm))
    exact (h'.reqs r hn').trans (h.reqs r hn)
  · intro r hr
    by_cases hn : r ∈ new
    · rw [hreqs r hn]
      exact h.filled r hn
    · exact h'.filled r ((List.mem_append.1 hr).resolve_left hn)
  · exact h'.queues
  · exact fun hs => h'.sent (h.sent hs)

/-- The requests in the queue and those that were sent are in one place each. -/
def Placed (s : State) : Prop := (s.queued ++ s.unanswered).Nodup

theorem Placed.apart (h : Placed s) : ∀ a ∈ s.queued, a ∉ s.unanswered :=
  fun a ha hu => (List.nodup_append.1 h).2.2 a ha a hu rfl

/-- One request. -/
theorem asks_one {req : FsRequest} (hq : Queues s) (hp : Placed s) (hr : r ∉ s.queued ++ s.unanswered)
    (hf : Filled v p t req)
    (he : s' = if s.writeReady then ((s.allocating r req).enqueued r).sending r else (s.allocating r req).enqueued r)
    (hq' : Queues s') : Asks v p t [r] s s' ∧ s'.reqs r = req := by
  obtain ⟨hrq, hru⟩ := not_or.1 (fun hm => hr (List.mem_append.2 hm))
  have hqa := hq.allocating r req
  have hreqs : s'.reqs = Function.update s.reqs r req := by
    rw [he]
    split <;> rfl
  have hself : s'.reqs r = req := by rw [hreqs, Function.update_self]
  refine ⟨⟨?_, ?_, ?_, ?_, fun a ha => ?_, fun a ha => ?_, hq', fun hs => ?_⟩, hself⟩
  · rw [he]
    split <;> rfl
  · rw [he]
    split
    case isTrue hw =>
      have hnil := hq.ready hw
      have hqd : (((s.allocating r req).enqueued r).sending r).queued = [] := by
        change (s.queued ++ [r]).erase r = []
        rw [hnil, List.nil_append, List.erase_cons_head]
      rw [hqd, hnil]
      exact .refl _
    case isFalse =>
      change (s.queued ++ [r] ++ s.unanswered).Perm _
      rw [List.append_assoc, List.append_assoc]
      exact List.perm_append_comm.append_left s.queued
  · rw [List.map_singleton, hself, he]
    split <;> rfl
  · rw [List.map_singleton, hself, he]
    split <;> rfl
  · rw [hreqs, Function.update_of_ne fun he => ha (List.mem_singleton.2 he)]
  · rw [List.mem_singleton.1 ha, hself]
    exact hf
  · have hse : Sent ((s.allocating r req).enqueued r) :=
      Sent.enqueued (s := s.allocating r req) hs hq.reqs hp.apart hru
    rw [he]
    split
    case isTrue hw =>
      have hqd : ((s.allocating r req).enqueued r).queued = [r] := by
        change s.queued ++ [r] = [r]
        rw [hq.ready hw, List.nil_append]
      refine hse.sending (enqueued_linked hqa.reqs hrq) hqd fun a ha hu => ?_
      rw [hqd] at ha
      rw [List.mem_singleton.1 ha] at hu
      exact hru hu
    case isFalse => exact hse

/-! ## What holds of the requests -/

/-- Every request that is queued or sent is allocated. -/
structure Core (s : State) : Prop where
  queues : Queues s
  placed : Placed s
  held : ∀ r ∈ s.queued ++ s.unanswered, r ∈ s.live.map Prod.fst
  live_nodup : (s.live.map Prod.fst).Nodup
  valid : ∀ r ∈ s.queued ++ s.unanswered, ValidAddr r

/-- Other fields do not matter. -/
theorem Core.congr (hc : Core s) (hl : s'.links = s.links) (hq : s'.queued = s.queued)
    (hu : s'.unanswered = s.unanswered) (hw : s'.writeReady = s.writeReady) (hv : s'.live = s.live) : Core s' := by
  refine ⟨⟨?_, ?_, ?_⟩, ?_, ?_, ?_, ?_⟩
  · rw [hl, hq]
    exact hc.queues.reqs
  · rw [hw, hq]
    exact hc.queues.ready
  · rw [hl]
    exact hc.queues.apart
  · unfold Placed
    rw [hq, hu]
    exact hc.placed
  · rw [hq, hu, hv]
    exact hc.held
  · rw [hv]
    exact hc.live_nodup
  · rw [hq, hu]
    exact hc.valid

theorem Core.fresh (h : Core s) {mems : List (Option Addr)} (hf : FreshReqs s mems) (hr : r ∈ mems.reduceOption) :
    r ∉ s.queued ++ s.unanswered := fun hm => (hf.2 r hr).2 (h.held r hm)

theorem Asks.map_fst (h : Asks v p t new s s') : s'.live.map Prod.fst = s.live.map Prod.fst ++ new := by
  rw [h.live, List.map_append, List.map_map]
  congr 1
  exact List.map_id new

/-- Asking for requests keeps all of this. -/
theorem Core.asks (hc : Core s) (h : Asks v p t new s s') {mems : List (Option Addr)} (hf : FreshReqs s mems)
    (hsub : new.Sublist mems.reduceOption) : Core s' := by
  have hnew : ∀ r ∈ new, r ∉ s.queued ++ s.unanswered := fun r hr => hc.fresh hf (hsub.subset hr)
  constructor
  · exact h.queues
  · unfold Placed
    rw [h.perm.nodup_iff]
    exact List.nodup_append.2 ⟨hc.placed, hf.1.sublist hsub, fun a ha b hb he => hnew b hb (he ▸ ha)⟩
  · intro r hr
    rw [h.map_fst]
    exact List.mem_append.2 ((List.mem_append.1 (h.perm.mem_iff.1 hr)).imp_left (hc.held r))
  · rw [h.map_fst]
    exact List.nodup_append.2 ⟨hc.live_nodup, hf.1.sublist hsub, fun a ha b hb he =>
      (hf.2 b (hsub.subset hb)).2 (he ▸ ha)⟩
  · intro r hr
    obtain hr | hr := List.mem_append.1 (h.perm.mem_iff.1 hr)
    · exact hc.valid r hr
    · exact (hf.2 r (hsub.subset hr)).1

/-- An action that asks for one request. -/
theorem request_asks {length : UInt16} {mems : List (Option Addr)} {fill : FsRequest → Option FsRequest} (hc : Core s)
    (hf : FreshReqs s mems) (h : s.request v p t length mems.head?.join fill = some s') (hfill : Fills length fill) :
    ∃ r mems', mems = some r :: mems' ∧ Asks v p t [r] s s' ∧ fill (newRequest s v p r t length) = some (s'.reqs r) := by
  have hmem : ∀ r ∈ mems.head?.join, ∃ mems', mems = some r :: mems' := by
    intro r hr
    match mems, hr with
    | some _ :: mems', rfl => exact ⟨mems', rfl⟩
  have hfresh : ∀ r ∈ mems.head?.join, r ∉ s.queued ++ s.unanswered := by
    intro r hr
    obtain ⟨mems', rfl⟩ := hmem r hr
    exact hc.fresh hf (by rw [List.reduceOption_cons_of_some]; exact List.mem_cons_self)
  have hfq : ∀ r ∈ mems.head?.join, r ∉ s.queued := fun r hr hm => hfresh r hr (List.mem_append_left _ hm)
  obtain ⟨r, req, hr, hfi, hreq, hq', he⟩ := request_some hc.queues hfq hfill h
  obtain ⟨mems', rfl⟩ := hmem r hr
  obtain ⟨ha, hself⟩ := asks_one hc.queues hc.placed (hfresh r hr) hfi he hq'
  exact ⟨r, mems', rfl, ha, hself ▸ hreq⟩

/-- What is left of the memory after a request was made in the first of it. -/
theorem FreshReqs.tail {mems : List (Option Addr)} (hf : FreshReqs s (some r :: mems)) (h : Asks v p t [r] s s') :
    FreshReqs s' mems := by
  unfold FreshReqs at hf
  rw [List.reduceOption_cons_of_some, List.nodup_cons] at hf
  refine ⟨hf.1.2, fun a ha => ⟨(hf.2 a (List.mem_cons_of_mem _ ha)).1, ?_⟩⟩
  rw [h.map_fst, List.mem_append, not_or, List.mem_singleton]
  exact ⟨(hf.2 a (List.mem_cons_of_mem _ ha)).2, fun he => hf.1.1 (he ▸ ha)⟩

/-! ## Writing -/

/-- Of the requests of a write of `n` bytes, only the last one has nothing after it. -/
def Chunked (n : Nat) (new : List Addr) (s : State) : Prop :=
  if n = 0 then new = []
  else ∃ init l, new = init ++ [l] ∧ (∀ r ∈ init, (s.reqs r).arg3 ≠ 0) ∧ (s.reqs l).arg3 = 0 ∧
    (n ≤ maxWriteLen → init = [])

theorem toNat_ofNat_chunk {k : Nat} (h : k ≤ maxWriteLen) : (UInt16.ofNat k).toNat = k := by
  rw [UInt16.toNat_ofNat']
  exact Nat.mod_eq_of_lt (lt_of_le_of_lt h (by decide))

/-- Only the argument slots are written. -/
def SameButArgs (f : FsRequest → FsRequest) : Prop :=
  ∀ req, (f req).volume = req.volume ∧ (f req).pkt = req.pkt ∧ (f req).type = req.type ∧ (f req).ot = req.ot ∧
    (f req).length = req.length

theorem SameButArgs.keeps {f : FsRequest → FsRequest} (hf : SameButArgs f) (req : FsRequest) : Keeps 0 req (f req) := by
  obtain ⟨hv, hp, ht, ho, hl⟩ := hf req
  exact .of_length_eq hv hp ht ho hl

theorem fills_args {f : FsRequest → FsRequest} (hf : SameButArgs f) : Fills 0 fun req => some (f req) := by
  intro req req' hr
  cases hr
  exact hf.keeps req

theorem fills_append_last {f : FsRequest → FsRequest} (hf : SameButArgs f) (arg length : UInt16) (data : List UInt8) :
    Fills length fun req => (f req).appendArg arg length data := by
  intro req req' hr
  have h := (hf.keeps req).trans (FsRequest.appendArg_keeps hr)
  rwa [UInt16.zero_add] at h

theorem fills_append_twice {f g : FsRequest → FsRequest} (hf : SameButArgs f) (hg : SameButArgs g)
    (arg arg' length length' : UInt16) (data data' : List UInt8) : Fills (length + length') fun req =>
      ((f req).appendArg arg length data).bind fun req => (g req).appendArg arg' length' data' := by
  intro req req' hr
  obtain ⟨req₁, h₁, h₂⟩ := Option.bind_eq_some_iff.1 hr
  exact (fills_append_last hf _ _ _ _ _ h₁).trans (fills_append_last hg _ _ _ _ _ h₂)

/-- Something is appended, and the argument slots are written before and after. -/
theorem fills_append {f g : FsRequest → FsRequest} (hf : SameButArgs f) (hg : SameButArgs g) (arg length : UInt16)
    (data : List UInt8) : Fills length fun req => ((f req).appendArg arg length data).map g := by
  intro req req' hr
  obtain ⟨req₁, hr', rfl⟩ := Option.map_eq_some_iff.1 hr
  have h := ((hf.keeps req).trans (FsRequest.appendArg_keeps hr')).trans (hg.keeps req₁)
  rwa [UInt16.zero_add, UInt16.add_zero] at h

/-- An iteration of the loop of `FS_ActionWrite`. -/
theorem writeChunk_asks {data : Addr} {n : Nat} {mems : List (Option Addr)} (hc : Core s) (hf : FreshReqs s mems)
    (h : s.writeChunk v p data n mems.head?.join = some s') :
    ∃ r mems', mems = some r :: mems' ∧ Asks v p .write [r] s s' ∧
      (s'.reqs r).arg3 = UInt32.ofNat (n - min n maxWriteLen) := by
  unfold State.writeChunk at h
  obtain ⟨r, mems', hm, ha, hreq⟩ := request_asks hc hf h
    (by refine fills_append ?_ ?_ _ _ _ <;> exact fun _ => ⟨rfl, rfl, rfl, rfl, rfl⟩)
  refine ⟨r, mems', hm, ha, ?_⟩
  obtain ⟨req, -, he⟩ := Option.map_eq_some_iff.1 hreq
  rw [← he]

/-- **The loop of `FS_ActionWrite`.** -/
theorem writeChunks_asks : ∀ {mems : List (Option Addr)} {s s' : State} {data : Addr} {n : Nat}, Core s →
    FreshReqs s mems → n < 2 ^ 32 → State.writeChunks v p mems s data n = some s' →
    ∃ new, new.Sublist mems.reduceOption ∧ Asks v p .write new s s' ∧ Chunked n new s'
  | [], _, _, _, 0, hc, _, _, h => by
    cases h
    exact ⟨[], List.nil_sublist _, .refl hc.queues, rfl⟩
  | _ :: _, _, _, _, 0, hc, _, _, h => by
    cases h
    exact ⟨[], List.nil_sublist _, .refl hc.queues, rfl⟩
  | [], _, _, _, _ + 1, _, _, _, h => by cases h
  | mem :: mems, s, s', data, n + 1, hc, hf, hn, h => by
    obtain ⟨s₁, h₁, h₂⟩ := Option.bind_eq_some_iff.1 h
    have h₁ : s.writeChunk v p data (n + 1) (mem :: mems).head?.join = some s₁ := h₁
    obtain ⟨r, mems', hm, ha, harg⟩ := writeChunk_asks hc hf h₁
    cases hm
    have hc₁ := hc.asks ha hf (by
      rw [List.reduceOption_cons_of_some]
      exact (List.nil_sublist _).cons_cons r)
    obtain ⟨new, hsub, ha₂, hch⟩ := writeChunks_asks hc₁ (hf.tail ha) (by omega) h₂
    have hrn : r ∉ new := fun hm => by
      have hd := hf.1
      rw [List.reduceOption_cons_of_some] at hd
      exact (List.nodup_cons.1 hd).1 (hsub.subset hm)
    refine ⟨r :: new, ?_, ha.trans ha₂ fun a hx => by rwa [List.mem_singleton.1 hx], ?_⟩
    · rw [List.reduceOption_cons_of_some]
      exact hsub.cons_cons r
    · have hr : (s'.reqs r).arg3 = UInt32.ofNat (n + 1 - min (n + 1) maxWriteLen) := by rw [ha₂.reqs r hrn, harg]
      unfold Chunked at hch ⊢
      rw [if_neg n.succ_ne_zero]
      by_cases hrest : n + 1 - min (n + 1) maxWriteLen = 0
      · -- this chunk is the last
        rw [if_pos hrest] at hch
        refine ⟨[], r, by rw [hch]; rfl, fun a hx => (List.not_mem_nil hx).elim, ?_, fun _ => rfl⟩
        rw [hr, hrest]
        rfl
      · rw [if_neg hrest] at hch
        obtain ⟨init, l, rfl, hi, hl, -⟩ := hch
        refine ⟨r :: init, l, rfl, fun a hx => ?_, hl, fun hle => absurd hle (by omega)⟩
        obtain rfl | hx := List.mem_cons.1 hx
        · rw [hr]
          intro he
          have := congrArg UInt32.toNat he
          rw [UInt32.toNat_ofNat', Nat.mod_eq_of_lt (by omega)] at this
          exact hrest this
        · exact hi a hx

end AmiPiBorg.Fs
