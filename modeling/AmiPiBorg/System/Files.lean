import AmiPiBorg.Fs.Pipeline
import AmiPiBorg.Server.Outgoing

/-!
# The file system client and the server

`Files` is the client's pipeline with the server. The client passes its writer to the server's port, the server takes it
from there when it comes to it, reads the request at `r_Data` and answers, and the client gets its writer back. Meanwhile
other clients do what they like on connections of their own.

What the server sends on the connection of the client is what the client has enqueued, in order, each request once and
whole, as far as the server has answered the writes with success (`requests_sent`).
-/

set_option autoImplicit false

namespace AmiPiBorg

open ProgLib

/-- What the server finds at `r_Self` of a request, with the values of the `ACTION_` constants. -/
def Fs.FsRequest.image (number : Fs.Action → UInt16) (req : Fs.FsRequest) : List UInt8 :=
  be32 req.self ++ be32 req.arg1 ++ be32 req.arg2 ++ be32 req.arg3 ++ be32 req.arg4 ++ be16 req.volId ++
    be16 (number req.type) ++ be16 req.length ++ req.bytes

theorem Fs.FsRequest.length_image (number : Fs.Action → UInt16) (req : Fs.FsRequest) :
    (req.image number).length = 26 + req.bytes.length := by
  simp [Fs.FsRequest.image, be32]
  omega

structure Files where
  pipe : Fs.Pipe
  srv : Server
  /-- `fs_Writer` is on the port of the server. -/
  posted : Bool
  /-- `fs_Writer` is on `fs_RemotePort`. -/
  back : Bool
  /-- Ghost: the requests that the server has taken, and whether it has answered `APB_RS_OK`. -/
  taken : List ((Fs.Addr × Fs.FsRequest) × Bool)

namespace Files

inductive Event where
  | client (e : Fs.Pipe.Event)
  | serve (e : Server.Event)
  /-- The server takes `fs_Writer` from its port. The other fields of it are those of `q`. -/
  | take (q : Request)

def start (mem : Fs.Addr → UInt8) (pkts : Fs.Addr → Fs.DosPacket) (reqs : Fs.Addr → Fs.FsRequest)
    (locks : Fs.Addr → Fs.FsFileLock) (vols : Fs.Addr → Fs.Volume) (links : Links Fs.Node) : Files :=
  { pipe := Fs.Pipe.pipeStart mem pkts reqs locks vols links, srv := .start, posted := false, back := false, taken := [] }

/-- The write that `fs_Writer` is, on the connection `k`. -/
def writer (number : Fs.Action → UInt16) (k : UInt16) (x : Files) (q : Request) (w : Fs.Addr × UInt16) : Request :=
  { q with type := rtWrite, connId := k, length := w.2
           data := (x.pipe.fs.reqs (w.1 - Fs.offsetofSelf.toUInt32)).image number }

/-- One event. A write that the server does not answer does not come back. -/
def step (number : Fs.Action → UInt16) (env : Env) (k : UInt16) (x : Files) : Event → Option Files
  | .client e => (x.pipe.step e).map fun p =>
      { x with pipe := p, posted := x.posted || decide (x.pipe.fs.written.length < p.fs.written.length)
               back := x.back && decide (e.returns = 0) }
  | .serve e => (x.srv.step env e).map fun s => { x with srv := s }
  | .take q => x.pipe.fs.written.getLast?.bind fun w =>
      (x.srv.step env (.request (writer number k x q w))).map fun s =>
        let r := w.1 - Fs.offsetofSelf.toUInt32
        let replies := s.replied.drop x.srv.replied.length
        { x with srv := s, posted := false, back := !replies.isEmpty
                 taken := x.taken ++ [((r, x.pipe.fs.reqs r), replies.any fun r => decide (Server.Written r))] }

/-- The event is no write on the connection `k`. -/
def Elsewhere (k : UInt16) : Server.Event → Prop
  | .request req => req.type = rtWrite → req.connId ≠ k
  | _ => True

instance (k : UInt16) : DecidablePred (Elsewhere k)
  | .request _ => inferInstanceAs (Decidable (_ → _))
  | .run _ | .wake _ | .timer _ | .requestsDone | .packet .. | .packetsDone => .isTrue trivial

/-- A request is filled in before it is enqueued, and answered after the server has taken it; the writer comes back from
where it is. The others do not write on the connection `k`. -/
def Sound (env : Env) (k : UInt16) (x : Files) : Event → Prop
  | .client (.enqueue r req) => x.pipe.Legal (.enqueue r req) ∧ req.bytes.length = req.length.toNat
  | .client .writerReply => x.back = true
  | .client (.answered r) => r ∈ x.pipe.fs.unanswered ∧
      (x.posted = true → ∀ w ∈ x.pipe.fs.written.getLast?, w.1 ≠ r + Fs.offsetofSelf.toUInt32)
  | .serve e => (x.srv.step env e).isSome ∧ Elsewhere k e
  | .take _ => x.posted = true

instance (env : Env) (k : UInt16) (x : Files) : DecidablePred (Sound env k x)
  | .client (.enqueue ..) => inferInstanceAs (Decidable (_ ∧ _))
  | .client .writerReply => inferInstanceAs (Decidable (_ = _))
  | .client (.answered _) => inferInstanceAs (Decidable (_ ∧ (_ → ∀ w ∈ x.pipe.fs.written.getLast?, _)))
  | .serve _ => inferInstanceAs (Decidable (_ ∧ _))
  | .take _ => inferInstanceAs (Decidable (_ = _))

/-- What is sent on the connection `k`. -/
def sentOn (k : UInt16) (os : List OutPac) : List (List UInt8) :=
  ((Server.dataOf os).filter fun d => decide (d.1 = k)).map Prod.snd

/-- What holds between events. -/
structure Inv (number : Fs.Action → UInt16) (k : UInt16) (x : Files) : Prop where
  flows : x.pipe.Flows
  writeless : ∀ c ∈ x.srv.connections, Server.Writeless c
  distinct : x.srv.Distinct
  filled : ∀ t ∈ x.pipe.enqueued, t.2.bytes.length = t.2.length.toNat
  /-- The writer is with the client, on the server's port or on its way back. -/
  place : (if x.pipe.fs.writeReady then 1 else 0) + x.posted.toNat + x.back.toNat = 1
  count : x.pipe.fs.written.length = x.taken.length + x.posted.toNat
  /-- What the writer refers to on the server's port. -/
  here : x.posted = true → ∃ t, x.pipe.enqueued[x.taken.length]? = some t ∧ t.1 ∈ x.pipe.fs.unanswered ∧
    x.pipe.fs.reqs t.1 = t.2
  order : x.taken.map Prod.fst = x.pipe.enqueued.take x.taken.length
  data : sentOn k x.srv.out = (x.taken.filter Prod.snd).map fun t => t.1.2.image number

/-! ## The client -/

variable {p p' : Fs.Pipe} {pe : Fs.Pipe.Event} {r : Fs.Addr} {t : Fs.Addr × Fs.FsRequest}

/-- What an event does to the pipeline: it passes on the request that is next, or none. -/
structure Advance (p : Fs.Pipe) (pe : Fs.Pipe.Event) (p' : Fs.Pipe) : Prop where
  flows : p'.Flows
  enqueued : p'.enqueued = p.enqueued ++ pe.enqueues
  reqs : ∀ r, (∀ t ∈ pe.enqueues, t.1 ≠ r) → p'.fs.reqs r = p.fs.reqs r
  unanswered : ∀ r ∈ p.fs.unanswered, pe ≠ .answered r → r ∈ p'.fs.unanswered
  sent : (p'.fs.written = p.fs.written ∧ (p'.fs.writeReady = true ↔ p.fs.writeReady = true ∨ pe.returns = 1)) ∨
    ∃ t, p'.enqueued[p.fs.written.length]? = some t ∧ p'.fs.written = p.fs.written ++ [Fs.Pipe.extent t] ∧
      t.1 ∈ p'.fs.unanswered ∧ p'.fs.reqs t.1 = t.2 ∧ p'.fs.writeReady = false ∧
      (p.fs.writeReady = true ∨ pe.returns = 1)

/-- The requests that have not been passed on are where they were filled in, and the first of them is next. -/
theorem next_waiting (h : p.Flows) {l : List Fs.Addr} (hq : p.fs.queued = r :: l) :
    ∃ t, p.enqueued[p.fs.written.length]? = some t ∧ t.1 = r ∧ p.fs.reqs r = t.2 := by
  obtain ⟨done, waiting, he, hw, hqw, hreqs⟩ := h.lists.order
  cases waiting with
  | nil => cases hq.symm.trans hqw
  | cons t waiting =>
    obtain ⟨rfl, -⟩ := List.cons.inj (hq.symm.trans hqw)
    refine ⟨t, ?_, rfl, hreqs t List.mem_cons_self⟩
    rw [he, hw, List.length_map, List.getElem?_append_right (Nat.le_refl _), Nat.sub_self]
    rfl

/-- **The events of the client.** -/
theorem advance_step (h : p.Flows) (hl : p.Legal pe) (hs : p.step pe = some p') : Advance p pe p' := by
  have hfl : p'.Flows := by
    obtain ⟨q, hq, hf⟩ := h.step hl
    cases hs.symm.trans hq
    exact hf
  cases pe with
  | enqueue r req =>
    have he := h.lists.enqueued req hl.1
    obtain ⟨fs, hfs, rfl⟩ := Option.map_eq_some_iff.1 hs
    rw [Fs.enqueueRequest_eq] at hfs
    by_cases hw : p.fs.writeReady = true
    · -- nothing waits, so the request is passed on
      have hq : ((p.fs.setReq r req).enqueued r).queued = [r] := by
        change p.fs.queued ++ [r] = [r]
        rw [h.ready hw, List.nil_append]
      rw [if_pos (by simpa [Fs.State.setReq] using hw), Fs.sendReq_cons he.reqs hq] at hfs
      cases hfs
      have hlen : p.fs.written.length = p.enqueued.length := by
        obtain ⟨done, waiting, ho, hwr, hqw, -⟩ := h.lists.order
        rw [h.ready hw, eq_comm, List.map_eq_nil_iff] at hqw
        rw [ho, hwr, hqw, List.append_nil, List.length_map]
      refine ⟨hfl, rfl, fun a ha => ?_, fun a ha _ => List.mem_append_left _ ha, .inr ⟨(r, req), ?_, ?_, ?_, ?_, rfl, .inl hw⟩⟩
      · exact Function.update_of_ne (Ne.symm (ha (r, req) (List.mem_singleton.2 rfl))) ..
      · rw [hlen]
        exact List.getElem?_concat_length
      · simp [Fs.State.sending, Fs.State.enqueued, Fs.State.setReq, Fs.Pipe.extent]
      · exact List.mem_append_right _ (List.mem_singleton.2 rfl)
      · exact Function.update_self ..
    · rw [if_neg (by simpa [Fs.State.setReq] using hw)] at hfs
      cases hfs
      refine ⟨hfl, rfl, fun a ha => ?_, fun a ha _ => ha, .inl ⟨rfl, ?_⟩⟩
      · exact Function.update_of_ne (Ne.symm (ha (r, req) (List.mem_singleton.2 rfl))) ..
      · exact ⟨.inl, fun hr => hr.resolve_right (by simp [Fs.Pipe.Event.returns])⟩
  | writerReply =>
    obtain ⟨fs, hfs, rfl⟩ := Option.map_eq_some_iff.1 hs
    cases hq : p.fs.queued with
    | nil =>
      rw [Fs.sendReq_nil (s := { p.fs with writeReady := true }) h.lists.reqs hq] at hfs
      cases hfs
      exact ⟨hfl, (List.append_nil _).symm, fun _ _ => rfl, fun _ ha _ => ha,
        .inl ⟨rfl, fun _ => .inr rfl, fun _ => rfl⟩⟩
    | cons r l =>
      obtain ⟨t, hnext, rfl, hreq⟩ := next_waiting h hq
      rw [Fs.sendReq_cons (s := { p.fs with writeReady := true }) h.lists.reqs hq] at hfs
      cases hfs
      refine ⟨hfl, (List.append_nil _).symm, fun _ _ => rfl, fun _ ha _ => List.mem_append_left _ ha,
        .inr ⟨t, hnext, ?_, ?_, hreq, rfl, .inr rfl⟩⟩
      · simp [Fs.State.sending, Fs.Pipe.extent, hreq]
      · exact List.mem_append_right _ (List.mem_singleton.2 rfl)
  | answered r =>
    cases hs
    refine ⟨hfl, (List.append_nil _).symm, fun _ _ => rfl, fun a ha hne => ?_, .inl ⟨rfl, ?_⟩⟩
    · exact (List.mem_erase_of_ne fun heq => hne (by rw [heq])).2 ha
    · exact ⟨.inl, fun hr => hr.resolve_right (by simp [Fs.Pipe.Event.returns])⟩

/-- The request that was passed on last. -/
theorem last_written (h : p.Flows) {n : Nat} (hn : p.fs.written.length = n + 1) (ht : p.enqueued[n]? = some t) :
    p.fs.written.getLast? = some (Fs.Pipe.extent t) := by
  rw [h.fifo.written, hn, List.take_add_one, ht, Option.toList_some, List.map_append, List.map_singleton,
    List.getLast?_concat]

variable {number : Fs.Action → UInt16} {env : Env} {k : UInt16} {x y : Files} {e : Event}

theorem Inv.taken_le (h : x.Inv number k) : x.taken.length ≤ x.pipe.enqueued.length := by
  have := congrArg List.length h.order
  rw [List.length_map, List.length_take] at this
  omega

/-- **What the client does** keeps the account. -/
theorem Inv.client (h : x.Inv number k) (hok : x.Sound env k (.client pe)) :
    ∃ y, x.step number env k (.client pe) = some y ∧ y.Inv number k := by
  have hplace := h.place
  -- the writer comes back from the server
  have hback : pe.returns = 1 → x.back = true ∧ x.posted = false ∧ x.pipe.fs.writeReady = false := by
    cases pe with
    | writerReply =>
      intro _
      have hb : x.back = true := hok
      rw [hb] at hplace
      cases hw : x.pipe.fs.writeReady <;> cases hp : x.posted <;> simp_all
    | _ => exact fun hr => absurd hr (by simp [Fs.Pipe.Event.returns])
  have hlegal : x.pipe.Legal pe := by
    cases pe with
    | enqueue r req => exact hok.1
    | writerReply => exact h.flows.outstanding_iff.1 (hback rfl).2.2
    | answered r => exact hok.1
  have hfilled : ∀ t ∈ pe.enqueues, t.2.bytes.length = t.2.length.toNat := by
    cases pe with
    | enqueue r req =>
      intro t ht
      rw [List.mem_singleton.1 ht]
      exact hok.2
    | _ => exact nofun
  obtain ⟨p, hp, -⟩ := h.flows.step hlegal
  have ha := advance_step h.flows hlegal hp
  have hle := h.taken_le
  have hfill : ∀ t ∈ p.enqueued, t.2.bytes.length = t.2.length.toNat := by
    intro t ht
    rw [ha.enqueued] at ht
    exact (List.mem_append.1 ht).elim (h.filled t) (hfilled t)
  have horder : x.taken.map Prod.fst = p.enqueued.take x.taken.length := by
    rw [h.order, ha.enqueued, List.take_append_of_le_length hle]
  have hret : pe.returns = 0 ∨ pe.returns = 1 := by cases pe <;> simp [Fs.Pipe.Event.returns]
  refine ⟨_, by rw [Files.step, hp]; rfl, ?_⟩
  rcases ha.sent with ⟨hw, hready⟩ | ⟨t, hnext, hw, hun, hreq, hready, hsent⟩
  · -- nothing is passed on
    have hposted : (x.posted || decide (x.pipe.fs.written.length < p.fs.written.length)) = x.posted := by simp [hw]
    refine ⟨ha.flows, h.writeless, h.distinct, hfill, ?_, ?_, ?_, horder, h.data⟩
    · dsimp only
      rw [hposted]
      rcases hret with hr | hr
      · have hsame : p.fs.writeReady = x.pipe.fs.writeReady := by
          rw [Bool.eq_iff_iff, hready, hr]
          simp
        rw [hsame, hr]
        simpa using hplace
      · obtain ⟨hb, hpo, hwr⟩ := hback hr
        rw [hready.2 (.inr hr), hr, hpo]
        simp
    · dsimp only
      rw [hposted, hw]
      exact h.count
    · dsimp only
      rw [hposted]
      intro hpo
      obtain ⟨t, ht, hu, hq⟩ := h.here hpo
      have hlast := last_written h.flows (by rw [h.count, hpo]; rfl) ht
      refine ⟨t, ?_, ha.unanswered _ hu ?_, (ha.reqs _ ?_).trans hq⟩
      · rw [ha.enqueued]
        exact List.getElem?_append_left (List.getElem?_eq_some_iff.1 ht).1 ▸ ht
      · rintro rfl
        exact hok.2 hpo _ hlast rfl
      · intro u hu' heq
        cases pe with
        | enqueue r req =>
          rw [List.mem_singleton.1 hu'] at heq
          refine hlegal.1 (List.mem_append_right _ ?_)
          rw [show r = t.1 from heq]
          exact hu
        | writerReply => cases hu'
        | answered r => cases hu'
  · -- the next request is passed on
    have hfree : x.posted = false ∧ (x.back && decide (pe.returns = 0)) = false := by
      rcases hsent with hwr | hr
      · rw [hwr] at hplace
        cases hpo : x.posted <;> cases hb : x.back <;> simp_all
      · obtain ⟨hb, hpo, -⟩ := hback hr
        simp [hpo, hr]
    have hlen : x.pipe.fs.written.length = x.taken.length := by
      rw [h.count, hfree.1]
      rfl
    have hposted : (x.posted || decide (x.pipe.fs.written.length < p.fs.written.length)) = true := by simp [hw]
    refine ⟨ha.flows, h.writeless, h.distinct, hfill, ?_, ?_, ?_, horder, h.data⟩
    · dsimp only
      rw [hposted, hready, hfree.2]
      rfl
    · dsimp only
      rw [hposted, hw, List.length_append, hlen]
      rfl
    · intro _
      rw [hlen] at hnext
      exact ⟨t, hnext, hun, hreq⟩

/-! ## The server -/

theorem sentOn_append (os os' : List OutPac) : sentOn k (os ++ os') = sentOn k os ++ sentOn k os' := by
  simp [sentOn]

/-- **What the server does besides** sends nothing on the connection of the client. -/
theorem Inv.serve (h : x.Inv number k) {se : Server.Event} (hok : x.Sound env k (.serve se)) :
    ∃ y, x.step number env k (.serve se) = some y ∧ y.Inv number k := by
  obtain ⟨s, hs⟩ := Option.isSome_iff_exists.1 hok.1
  have hdata : sentOn k s.out = sentOn k x.srv.out := by
    rcases Server.step_carried h.writeless hs with ⟨os, rs, ho, -, hos, -⟩ | ⟨req, r, rfl, hans, hc⟩
    · rw [ho, sentOn_append, sentOn, sentOn, Server.dataOf_eq_nil hos]
      simp
    · obtain ⟨o, ho, -, hid, -⟩ := hc.out
      have hne : r.connId ≠ k := by
        rw [hans.connId]
        exact hok.2 (hans.type.symm.trans hc.written.1)
      rw [ho, sentOn_append]
      have hnil : sentOn k [o] = [] := by
        unfold sentOn Server.dataOf
        simp only [List.filter_cons, List.filter_nil]
        split <;> simp [hid, hne]
      rw [hnil, List.append_nil]
  refine ⟨{ x with srv := s }, by rw [Files.step, hs]; rfl, h.flows, Server.writeless_step h.writeless h.distinct hs,
    (Server.booked_step h.distinct hs).distinct, h.filled, h.place, h.count, h.here, h.order, hdata.trans h.data⟩

/-- **The server takes the writer**: the request that it refers to goes out whole, if it is answered with success. -/
theorem Inv.take (h : x.Inv number k) (hk : k ≠ defaultConnection) {q : Request} (hok : x.Sound env k (.take q)) :
    ∃ y, x.step number env k (.take q) = some y ∧ y.Inv number k := by
  have hpo : x.posted = true := hok
  have hplace := h.place
  have hcount := h.count
  rw [hpo] at hplace hcount
  obtain ⟨t, ht, hu, hreq⟩ := h.here hpo
  have hlast := last_written h.flows hcount ht
  have haddr : (Fs.Pipe.extent t).1 - Fs.offsetofSelf.toUInt32 = t.1 := by
    unfold Fs.Pipe.extent
    exact UInt32.add_sub_cancel ..
  have hmem : t ∈ x.pipe.enqueued := List.mem_of_getElem? ht
  -- the writer's length is that of the request
  have hlen : (Fs.Pipe.extent t).2.toNat = (t.2.image number).length := by
    have := Fs.Pipe.extent_length (h.flows.short t hmem)
    rw [show Fs.offsetofSelf.toNat = 16 from rfl, show Fs.sizeofFsRequest.toNat = 42 from rfl] at this
    rw [Fs.FsRequest.length_image, h.filled t hmem]
    omega
  let w := writer number k x q (Fs.Pipe.extent t)
  have hdata : w.data = t.2.image number := by
    show (x.pipe.fs.reqs _).image number = _
    rw [haddr, hreq]
  have hw : { w with num := x.srv.taken }.type = rtWrite := rfl
  obtain ⟨s, r, hs, hr⟩ := Server.write_answered env { x.srv with taken := x.srv.taken + 1 } hw hk
  have hs : x.srv.step env (.request w) = some s := hs
  have hr : s.replied = x.srv.replied ++ [r] := hr
  have hdrop : s.replied.drop x.srv.replied.length = [r] := by rw [hr, List.drop_left]
  have hstep : x.step number env k (.take q) = some
      { x with srv := s, posted := false, back := true, taken := x.taken ++ [(t, decide (Server.Written r))] } := by
    unfold Files.step
    dsimp only
    rw [hlast, Option.bind_some, hs, Option.map_some]
    simp only [hdrop, haddr, hreq, List.isEmpty_cons, Bool.not_false, List.any_cons, List.any_nil, Bool.or_false]
  refine ⟨_, hstep, h.flows, Server.writeless_step h.writeless h.distinct hs,
    (Server.booked_step h.distinct hs).distinct, h.filled, ?_, ?_, nofun, ?_, ?_⟩
  · cases hw : x.pipe.fs.writeReady <;> cases hb : x.back <;> simp_all
  · simpa using hcount
  · dsimp only
    rw [List.map_append, h.order, List.length_append, List.length_singleton, List.take_add_one, ht]
    rfl
  · dsimp only
    rcases Server.step_carried h.writeless hs with ⟨os, rs, ho, hrs, hos, hnot⟩ | ⟨req, r', hq, hans, hc⟩
    · obtain rfl : rs = [r] := List.append_cancel_left (hrs.symm.trans hr)
      have hfalse : ¬Server.Written r := not_and_or.2 (hnot r (List.mem_singleton.2 rfl))
      have hnil : sentOn k os = [] := by
        rw [sentOn, Server.dataOf_eq_nil hos]
        rfl
      rw [ho, sentOn_append, hnil, List.append_nil, h.data]
      simp [hfalse]
    · obtain rfl : r' = r := List.singleton_inj.1 (List.append_cancel_left (hc.replied.symm.trans hr))
      obtain ⟨o, ho, hot, hoc, hod⟩ := hc.out
      cases hq
      have hid : o.connId = k := hoc.trans hans.connId
      have hbytes : o.data = t.2.image number := by
        rw [hod, hans.data, hans.length]
        show w.data.take (Fs.Pipe.extent t).2.toNat = _
        rw [hdata, hlen, List.take_length]
      have hone : sentOn k [o] = [t.2.image number] := by simp [sentOn, Server.dataOf, hot, hid, hbytes]
      rw [ho, sentOn_append, h.data, hone]
      simp [hc.written]

/-! ## Runs -/

theorem flows_start (mem : Fs.Addr → UInt8) (pkts : Fs.Addr → Fs.DosPacket) (reqs : Fs.Addr → Fs.FsRequest)
    (locks : Fs.Addr → Fs.FsFileLock) (vols : Fs.Addr → Fs.Volume) (links : Links Fs.Node) :
    (Fs.Pipe.pipeStart mem pkts reqs locks vols links).Flows :=
  ⟨⟨(Fs.core_start mem pkts reqs locks vols links).queues.reqs, Fs.sent_start mem pkts reqs locks vols links,
    List.nodup_nil, [], [], rfl, rfl, rfl, fun _ ht => absurd ht List.not_mem_nil⟩, fun _ => rfl, rfl,
    fun _ ht => absurd ht List.not_mem_nil⟩

theorem inv_start (number : Fs.Action → UInt16) (k : UInt16) (mem : Fs.Addr → UInt8) (pkts : Fs.Addr → Fs.DosPacket)
    (reqs : Fs.Addr → Fs.FsRequest) (locks : Fs.Addr → Fs.FsFileLock) (vols : Fs.Addr → Fs.Volume)
    (links : Links Fs.Node) : (start mem pkts reqs locks vols links).Inv number k :=
  ⟨flows_start mem pkts reqs locks vols links, fun _ hc => absurd hc List.not_mem_nil, Server.distinct_start,
    fun _ ht => absurd ht List.not_mem_nil, rfl, rfl, nofun, rfl, rfl⟩

/-- **What the file system client says to its handler**, in every run of the client with the server. The server takes the
requests in the order in which they were enqueued, each once, and what it sends on the connection of the client are
those of them that it has answered with success, in this order and whole. At most one more has been passed on. -/
theorem requests_sent (number : Fs.Action → UInt16) (env : Env) {k : UInt16} (hk : k ≠ defaultConnection)
    (mem : Fs.Addr → UInt8) (pkts : Fs.Addr → Fs.DosPacket) (reqs : Fs.Addr → Fs.FsRequest)
    (locks : Fs.Addr → Fs.FsFileLock) (vols : Fs.Addr → Fs.Volume) (links : Links Fs.Node) {es : List Event}
    (hok : Along (Sound env k) (step number env k) (start mem pkts reqs locks vols links) es) :
    ∃ x, runs (step number env k) (start mem pkts reqs locks vols links) es = some x ∧
      x.taken.map Prod.fst = x.pipe.enqueued.take x.taken.length ∧
      sentOn k x.srv.out = (x.taken.filter Prod.snd).map (fun t => t.1.2.image number) ∧
      x.pipe.fs.written.length ≤ x.taken.length + 1 := by
  obtain ⟨x, hx, h⟩ := runs_some (Inv number k) (fun x e h hok => by
    cases e with
    | client pe => exact h.client hok
    | serve se => exact h.serve hok
    | take q => exact h.take hk hok) (inv_start number k mem pkts reqs locks vols links) hok
  refine ⟨x, hx, h.order, h.data, ?_⟩
  rw [h.count]
  exact Nat.add_le_add_left (Bool.toNat_le _) _

/-- The client has the connection 1. Two requests are enqueued, and the second is passed on when the writer comes back. -/
def twoRequests : List Event :=
  (Server.greeting ++ Server.pass [Server.ask rtOpen 0] [Server.bare 2 ptConnected 1] ++
      [Server.Event.run true, .wake false, .timer false]).map Event.serve ++
    [.client (.enqueue 200 ⟨0, 0, 200, 0, 0, 0, 0, 1, .flush, 0, [], Fs.otRequestMin⟩),
      .client (.enqueue 300 ⟨0, 0, 300, 0, 0, 0, 0, 1, .flush, 2, [1, 97], Fs.otRequestMax⟩),
      .take (Server.ask 0 0), .client .writerReply, .client (.answered 200), .take (Server.ask 0 0),
      .client .writerReply]

theorem requests_sent_two : ∃ x, runs (step (fun _ => 27) Server.plenty 1) (start (fun _ => 0)
      (fun _ => ⟨.dos 0, .flush, 0, 0, 0, 0, 0, 0⟩) (fun _ => ⟨0, 0, 0, 0, 0, 0, 0, 0, .flush, 0, [], Fs.otRequestMin⟩)
      (fun _ => ⟨0, 0, .dos 0, 0, 0⟩) (fun _ => ⟨0, 0, false, 0⟩) ⟨fun _ => .null, fun _ => .null⟩) twoRequests = some x ∧
    x.taken.map Prod.fst = x.pipe.enqueued.take x.taken.length ∧
    sentOn 1 x.srv.out = (x.taken.filter Prod.snd).map (fun t => t.1.2.image fun _ => 27) ∧
    x.pipe.fs.written.length ≤ x.taken.length + 1 :=
  requests_sent (fun _ => 27) Server.plenty (by decide) _ _ _ _ _ _ (by decide +kernel)

end Files

end AmiPiBorg
