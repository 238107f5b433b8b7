import AmiPiBorg.System.Sender
import AmiPiBorg.System.Receiver
import AmiPiBorg.Server.Custody
import AmiPiBorg.Server.Outgoing
import AmiPiBorg.Server.Receipts

/-!
# The server on its devices

A `Host` is the server with the packet writer that its packets go to, the reader that its packets come from, and the
serial device at both. The server works on values, the others on memory, and the step of a host ties them together:

* what the server sends is what its calls have got from the writer (`serve`);
* a packet that it handles is what the reader's object holds at that moment (`next`);
* what it releases is given back to the reader (`release`).

Events come in any order. As long as they are `Sound`, a host is a run of the server on what has come in (`Inv`).
-/

set_option autoImplicit false

namespace AmiPiBorg

open ProgLib

/-- What a packet says, whoever sends it. -/
abbrev Content := UInt16 × UInt8 × List UInt8

def OutPac.content (o : OutPac) : Content := (o.connId, o.type, o.data)

def Incoming.content (pac : Incoming) : Content := (pac.connId, pac.type, pac.data)

/-- The event is a packet. -/
def Server.Event.isPacket : Server.Event → Bool
  | .packet .. => true
  | _ => false

structure Host where
  srv : Server
  sender : Sender
  intake : Intake
  /-- The bytes that have come in. -/
  received : List UInt8
  /-- The packets that the server has from the reader, in the order of `Rx.held`. -/
  holding : List InPac
  /-- Ghost: the packets that were taken from the reader's queue. -/
  taken : Rx.Taken

namespace Host

inductive Event where
  /-- An event of the server, and the calls that it makes of the writer. It is not a packet. -/
  | serve (e : Server.Event) (calls : List Tx.Event)
  /-- The server takes the next packet from the reader. -/
  | packet (calls : List Tx.Event)
  /-- The device has stored bytes, or not, and the server fetches them. -/
  | message (al : Reader.Alloc) (sig : Option (List UInt8 × List UInt8))
  /-- The device has transmitted what it was given. -/
  | transmitted
  /-- What others do to buffers that the reader does not have in use. -/
  | others (bufs : BufPtr → Buffer)

def start (obs : ObPtr → OutBuffer) (bufs : BufPtr → Buffer) (al : Reader.Alloc) (ibs : IbPtr → InBuffer)
    (bufs' : BufPtr → Buffer) (nullOffset : Nat) : Host :=
  { srv := .start, sender := .start obs bufs, intake := .start al ibs bufs' nullOffset, received := [], holding := [],
    taken := ⟨[], []⟩ }

/-- A packet goes back to the reader. -/
def release (fuel : Nat) (x : Host) (ip : InPac) : Option Host :=
  let e := Intake.Event.release (x.holding.idxOf ip)
  (x.intake.step fuel e).map fun y =>
    { x with intake := y, holding := x.holding.eraseIdx (x.holding.idxOf ip), taken := x.intake.note e x.taken }

/-- What the server releases on the way from `s` to `s'`. -/
def releases (s s' : Server) : List InPac := s'.released.drop s.released.length

/-- An event of the server. The calls have allocated what it has sent. -/
def serve (env : Env) (fuel : Nat) (x : Host) (e : Server.Event) (calls : List Tx.Event) : Option Host :=
  (x.srv.step env e).bind fun s =>
    (runs Sender.step x.sender calls).bind fun snd =>
      if snd.tx.allocated.map Incoming.content = s.out.map OutPac.content then
        (runs (release fuel) x (releases x.srv s)).map fun y => { y with srv := s, sender := snd }
      else none

/-- The next packet, taken from the reader, and the event that it is to the server. -/
def next (fuel : Nat) (x : Host) : Option (Host × Server.Event) :=
  match x.intake.rx.rd.dequeueInPacket.1 with
  | none => none
  | some ip =>
    let pac := x.intake.rx.rd.view ip
    (x.intake.step fuel .dequeue).map fun y =>
      ({ x with intake := y, holding := x.holding ++ [⟨x.srv.dequeued, x.srv.dequeued, pac⟩],
                taken := x.intake.note .dequeue x.taken }, .packet x.srv.dequeued pac)

def step (env : Env) (fuel : Nat) (x : Host) : Event → Option Host
  | .serve e calls => if e.isPacket then none else x.serve env fuel e calls
  | .packet calls => (x.next fuel).bind fun r => r.1.serve env fuel r.2 calls
  | .message al sig =>
    let e := Intake.Event.message al sig
    (x.intake.step fuel e).map fun y =>
      { x with intake := y, received := x.received ++ x.intake.bring e, taken := x.intake.note e x.taken }
  | .transmitted => (x.sender.step .complete).map fun snd => { x with sender := snd }
  | .others bufs => (x.intake.step fuel (.others bufs)).map fun y => { x with intake := y }

/-- The calls are safe for the writer, and the releases for the reader. -/
structure Careful (env : Env) (fuel : Nat) (x : Host) (e : Server.Event) (calls : List Tx.Event) : Prop where
  calls : Along (fun y e => Tx.SafeStep y.tx e) Sender.step x.sender calls
  releases : ∀ s, x.srv.step env e = some s →
    Along (fun y ip => y.intake.Usable (.release (y.holding.idxOf ip))) (release fuel) x (Host.releases x.srv s)

/-- Pools answer the reader, and the server is careful. -/
def Sound (env : Env) (fuel : Nat) (x : Host) : Event → Prop
  | .serve e calls => x.Careful env fuel e calls
  | .packet calls => ∀ y e, x.next fuel = some (y, e) → y.Careful env fuel e calls
  | .message al _ => al.Succeeds
  | _ => True

/-- What holds between events, and where the server is about to handle the packets `new`. -/
structure Inv (env : Env) (new : List InPac) (x : Host) : Prop where
  sending : ∃ S U, x.sender.Sending S U
  fed : x.intake.Fed x.received x.taken
  /-- The server has gone through a run of its own, with the packets that were taken. -/
  server : ∃ es, runs (Server.step env) Server.start es = some x.srv ∧
    Server.arrived es ++ new.map InPac.pac = x.taken.all
  contents : x.sender.tx.allocated.map Incoming.content = x.srv.out.map OutPac.content
  held : x.holding.map InPac.pac = x.taken.held
  waiting : ∀ ip, ip ∈ new ∨ x.srv.Queued ip → ip ∈ x.holding

variable {env : Env} {fuel : Nat} {x y : Host} {e : Event} {se : Server.Event} {calls : List Tx.Event} {new : List InPac}

theorem inv_start (obs : ObPtr → OutBuffer) (bufs : BufPtr → Buffer) {al : Reader.Alloc} (hal : al.Succeeds)
    (ibs : IbPtr → InBuffer) (bufs' : BufPtr → Buffer) (nullOffset : Nat) :
    (start obs bufs al ibs bufs' nullOffset).Inv env [] := by
  refine ⟨⟨[], [], Sender.sending_start obs bufs⟩, Intake.fed_start hal ibs bufs' nullOffset, ⟨[], rfl, rfl⟩, rfl, rfl, ?_⟩
  rintro ip (hip | ⟨c, hc, -⟩)
  · exact absurd hip List.not_mem_nil
  · exact absurd hc List.not_mem_nil

/-! ## Releases -/

/-- What releases do: the rest of the host stays, and what is not released is held. -/
structure Released (x : Host) (rs : List InPac) (y : Host) : Prop where
  srv : y.srv = x.srv
  sender : y.sender = x.sender
  received : y.received = x.received
  all : y.taken.all = x.taken.all
  fed : y.intake.Fed y.received y.taken
  held : y.holding.map InPac.pac = y.taken.held
  kept : ∀ ip ∈ x.holding, ip ∉ rs → ip ∈ y.holding

theorem released_run {rs : List InPac} (hf : x.intake.Fed x.received x.taken)
    (hh : x.holding.map InPac.pac = x.taken.held)
    (hok : Along (fun y ip => y.intake.Usable (.release (y.holding.idxOf ip))) (release fuel) x rs)
    (hx : runs (release fuel) x rs = some y) : Released x rs y := by
  refine runs_inv (Released x rs) (fun z ip z' hz hu hs => ?_) ⟨rfl, rfl, rfl, rfl, hf, hh, fun _ h _ => h⟩
    (along_and hok fun ip hip => hip) hx
  obtain ⟨w, hw, rfl⟩ := Option.map_eq_some_iff.1 hs
  refine ⟨hz.srv, hz.sender, hz.received, hz.all, ?_, ?_, fun q hq hne => ?_⟩
  · have h : Intake.Fed (z.received ++ []) w _ := hz.fed.step hu.1 hw
    rwa [List.append_nil] at h
  · show (z.holding.eraseIdx _).map InPac.pac = z.taken.held.eraseIdx _
    rw [← hz.held, List.eraseIdx_map]
  · show q ∈ z.holding.eraseIdx (z.holding.idxOf ip)
    rw [← List.erase_eq_eraseIdx_of_idxOf rfl]
    refine (List.mem_erase_of_ne ?_).2 (hz.kept q hq hne)
    rintro rfl
    exact hne hu.2

/-! ## Steps -/

/-- The server handles what it has taken. -/
theorem Inv.serve (h : x.Inv env (x.srv.newPacket se)) (hok : x.Careful env fuel se calls)
    (hs : x.serve env fuel se calls = some y) : y.Inv env [] ∧ y.received = x.received := by
  unfold Host.serve at hs
  obtain ⟨s, hsrv, hs⟩ := Option.bind_eq_some_iff.1 hs
  obtain ⟨snd, hsnd, hs⟩ := Option.bind_eq_some_iff.1 hs
  split at hs
  · next hc =>
    obtain ⟨z, hz, rfl⟩ := Option.map_eq_some_iff.1 hs
    have hrel := released_run h.fed h.held (hok.releases s hsrv) hz
    obtain ⟨es, hes, harr⟩ := h.server
    have hcust := Server.custody_step hsrv
    have hrun : runs (Server.step env) Server.start (es ++ [se]) = some s := by
      rw [runs_append, hes, Option.bind_some, runs_cons hsrv, runs_nil]
    refine ⟨⟨?_, hrel.fed, ⟨es ++ [se], ?_, ?_⟩, hc, hrel.held, ?_⟩, hrel.received⟩
    · exact runs_inv (fun y => ∃ S U, y.Sending S U) (fun _ _ _ hI hok hs => by
        obtain ⟨S, U, hI⟩ := hI
        exact Sender.sending_step hI hok hs) h.sending hok.calls hsnd
    · exact hrun
    · rw [hrel.all, ← harr, Server.arrived, List.filterMap_append, List.map_nil, List.append_nil]
      exact congrArg _ (Server.arrived_newPacket x.srv se)
    · rintro ip (hip | hip)
      · exact absurd hip List.not_mem_nil
      · -- what still waits is not released
        refine hrel.kept ip (h.waiting ip (hcust.queued ip hip)) fun hm => ?_
        exact (Server.stocked_run hrun).not_released hip (List.mem_of_mem_drop hm)
  · cases hs

/-- The server takes a packet. -/
theorem Inv.next (h : x.Inv env []) (hn : x.next fuel = some (y, se)) :
    y.Inv env (y.srv.newPacket se) ∧ y.received = x.received := by
  unfold Host.next at hn
  split at hn
  · cases hn
  · next ip hip =>
    obtain ⟨z, hz, hn⟩ := Option.map_eq_some_iff.1 hn
    have hfed : Intake.Fed (x.received ++ []) z _ := h.fed.step (e := .dequeue) trivial hz
    rw [List.append_nil] at hfed
    have hnote : x.intake.note .dequeue x.taken =
        { all := x.taken.all ++ [x.intake.rx.rd.view ip], held := x.taken.held ++ [x.intake.rx.rd.view ip] } := by
      simp only [Intake.note, Rx.note, hip, Option.toList_some, List.map_cons, List.map_nil]
    obtain ⟨es, hes, harr⟩ := h.server
    rw [List.map_nil, List.append_nil] at harr
    cases hn
    refine ⟨⟨h.sending, hfed, ⟨es, hes, ?_⟩, h.contents, ?_, ?_⟩, rfl⟩
    · rw [harr, hnote]
      rfl
    · rw [hnote, List.map_append, h.held]
      rfl
    · rintro q (hq | hq)
      · exact List.mem_append_right _ hq
      · exact List.mem_append_left _ (h.waiting q (.inr hq))

/-- **Every sound step** is a step of the server, of the writer and of the reader. -/
theorem Inv.step (h : x.Inv env []) (hok : x.Sound env fuel e) (hs : x.step env fuel e = some y) : y.Inv env [] := by
  cases e with
  | serve se calls =>
    unfold Host.step at hs
    dsimp only at hs
    split at hs
    · cases hs
    · next hp =>
      refine (Inv.serve ?_ hok hs).1
      cases se with
      | packet seq pac => exact absurd rfl hp
      | _ => exact h
  | packet calls =>
    obtain ⟨⟨z, se⟩, hz, hs⟩ := Option.bind_eq_some_iff.1 hs
    exact (Inv.serve (h.next hz).1 (hok z se hz) hs).1
  | message al sig =>
    obtain ⟨z, hz, rfl⟩ := Option.map_eq_some_iff.1 hs
    exact ⟨h.sending, h.fed.step (e := .message al sig) hok hz, h.server, h.contents, h.held, h.waiting⟩
  | transmitted =>
    have hs : (x.sender.step .complete).map (fun snd => { x with sender := snd }) = some y := hs
    obtain ⟨snd, hsnd, rfl⟩ := Option.map_eq_some_iff.1 hs
    obtain ⟨S, U, hsend⟩ := h.sending
    refine ⟨Sender.sending_step (e := .complete) hsend trivial hsnd, h.fed, h.server, ?_, h.held, h.waiting⟩
    obtain ⟨tx, htx, rfl⟩ := Option.map_eq_some_iff.1 hsnd
    cases htx
    exact h.contents
  | others bufs =>
    have hs : (x.intake.step fuel (.others bufs)).map (fun z => { x with intake := z }) = some y := hs
    obtain ⟨z, hz, rfl⟩ := Option.map_eq_some_iff.1 hs
    have hfed : Intake.Fed (x.received ++ []) z _ := h.fed.step (e := .others bufs) trivial hz
    rw [List.append_nil] at hfed
    exact ⟨h.sending, hfed, h.server, h.contents, h.held, h.waiting⟩

theorem inv_run {obs : ObPtr → OutBuffer} {bufs : BufPtr → Buffer} {al : Reader.Alloc} {ibs : IbPtr → InBuffer}
    {bufs' : BufPtr → Buffer} {nullOffset : Nat} {es : List Event} (hal : al.Succeeds)
    (hok : Along (Sound env fuel) (step env fuel) (start obs bufs al ibs bufs' nullOffset) es)
    (hx : runs (step env fuel) (start obs bufs al ibs bufs' nullOffset) es = some x) : x.Inv env [] :=
  runs_inv (Inv env []) (fun _ _ _ h ho hs => h.step ho hs) (inv_start obs bufs hal ibs bufs' nullOffset) hok hx

/-! ## What goes out -/

/-- What the packets with data carry, and on which connection. -/
def dataIn (pacs : List Incoming) : List (UInt16 × List UInt8) :=
  (pacs.filter fun pac => pac.type = ptData).map fun pac => (pac.connId, pac.data)

/-- The data among contents. -/
def dataAmong (cs : List Content) : List (UInt16 × List UInt8) :=
  (cs.filter fun c => c.2.1 = ptData).map fun c => (c.1, c.2.2)

theorem dataIn_eq (pacs : List Incoming) : dataIn pacs = dataAmong (pacs.map Incoming.content) := by
  rw [dataAmong, List.filter_map, List.map_map]
  rfl

theorem dataOf_eq (os : List OutPac) : Server.dataOf os = dataAmong (os.map OutPac.content) := by
  rw [dataAmong, List.filter_map, List.map_map]
  rfl

/-- What the clients have written, as far as they were told so. -/
def writtenData (s : Server) : List (UInt16 × List UInt8) :=
  s.written.map fun r => (r.connId, r.data.take r.actual.toNat)

/-- **What clients write is transmitted**: the bytes that have left the device are the first ones of well-formed packets,
whose data is that of the writes which were answered `APB_RS_OK`, in their order, each once and with all its bytes; all
of it when the writer is idle. -/
theorem writes_transmitted (env : Env) (obs : ObPtr → OutBuffer) (bufs : BufPtr → Buffer) (al : Reader.Alloc)
    (ibs : IbPtr → InBuffer) (bufs' : BufPtr → Buffer) (nullOffset : Nat) (es : List Event) (fuel : Nat) (x : Host)
    (hal : al.Succeeds) (hok : Along (Sound env fuel) (step env fuel) (start obs bufs al ibs bufs' nullOffset) es)
    (hx : runs (step env fuel) (start obs bufs al ibs bufs' nullOffset) es = some x) :
    ∃ ps : List WirePacket, x.sender.sent <+: ps.flatMap WirePacket.bytes ∧
      dataIn (ps.map WirePacket.incoming) <+: writtenData x.srv ∧
      (x.srv.written.map Request.num).Pairwise (· < ·) ∧
      (x.sender.Idle → x.sender.sent = ps.flatMap WirePacket.bytes ∧
        dataIn (ps.map WirePacket.incoming) = writtenData x.srv) := by
  have h := inv_run hal hok hx
  obtain ⟨S, U, hsend⟩ := h.sending
  obtain ⟨ses, hses, -⟩ := h.server
  have hw := Server.sentAsWritten_run hses
  -- the data that was allocated is the data that was written
  have hdata : dataIn x.sender.tx.allocated = writtenData x.srv := by
    rw [dataIn_eq, h.contents, ← dataOf_eq, hw.data]
    exact List.map_congr_left fun r hr => by rw [hw.actual r hr]
  obtain ⟨ps, hsent, hall, hidle⟩ := hsend.transmitted
  refine ⟨ps, hsent, ?_, hw.order, fun hi => ⟨(hidle hi).1, ?_⟩⟩
  · rw [← hdata]
    exact (hall.filter _).map _
  · rw [← hdata, (hidle hi).2]

/-- The server allocates a packet and writes it. -/
def call (length : Nat) (type : UInt8) (connId : UInt16) (data : List UInt8) : List Tx.Event :=
  [.alloc .unbounded none length type connId (Mem.ofList data), .write]

/-- What the Pi sends. -/
def answers : List WirePacket :=
  [.sealed ptHello 0 1 [] Segment.nil_short, .sealed ptConnected 1 2 [] Segment.nil_short,
    .sealed ptData 1 3 [65, 66] (by decide)]

/-- The device has these bytes. -/
def brings (ps : List WirePacket) : Event :=
  let bs := ps.flatMap WirePacket.bytes
  .message .unbounded (some (bs.take 1, bs.drop 1))

/-- A client opens a connection, data comes for it, and the client writes and reads. -/
def exchange : List Event :=
  [.serve (.run true) [], .serve (.run true) [], .serve (.run true) [],
    .serve (.run true) (call 18 ptInit 0 (be16 amipiborgVersion ++ be16 (UInt16.ofNat bufferSize))), .transmitted,
    brings (answers.take 1), .packet (call 14 ptPing 0 []), .transmitted,
    .serve (.request (Server.ask rtOpen 0)) (call 16 ptConnect 1 (be16 1)), .transmitted,
    brings (answers.drop 1), .packet [], .packet [],
    .serve (.request { Server.ask rtWrite 1 with length := 3, data := [1, 2, 3] }) (call 17 ptData 1 [1, 2, 3]),
    .transmitted, .serve (.request (Server.ask rtRead 1)) []]

def home : Host := start (fun _ => default) (fun _ => default) .unbounded (fun _ => default) (fun _ => default) 0

/-- A release from a buffer that the reader has not left. -/
def Light (x : Host) (ip : InPac) : Prop :=
  ∃ q ∈ x.intake.rx.held[x.holding.idxOf ip]?,
    x.intake.rx.rd.next q.inBuf = none ∧ (x.intake.rx.rd.ibs q.inBuf).canRelease = false

instance (x : Host) (ip : InPac) : Decidable (x.Light ip) := inferInstanceAs (Decidable (∃ q ∈ _, _ ∧ _))

theorem Light.usable {ip : InPac} (h : x.Light ip) : x.intake.Usable (.release (x.holding.idxOf ip)) := by
  obtain ⟨q, hq, hnext, hrel⟩ := h
  refine ⟨q, hq, ⟨fun _ h => ?_, fun b hb => ?_⟩, fun _ => hnext⟩
  · exact absurd (hrel.symm.trans h) nofun
  · exact absurd (hnext.symm.trans hb) nofun

/-- Calls that are safe, and releases that are light. -/
def Lightly (env : Env) (fuel : Nat) (x : Host) (e : Server.Event) (calls : List Tx.Event) : Prop :=
  Along (fun y e => Tx.SafeStep y.tx e) Sender.step x.sender calls ∧
    ∀ s ∈ x.srv.step env e, Along Light (release fuel) x (releases x.srv s)

instance (env : Env) (fuel : Nat) (x : Host) (e : Server.Event) (calls : List Tx.Event) :
    Decidable (x.Lightly env fuel e calls) := inferInstanceAs (Decidable (_ ∧ ∀ s ∈ _, _))

theorem Lightly.careful (h : x.Lightly env fuel se calls) : x.Careful env fuel se calls :=
  ⟨h.1, fun s hs => along_mono (fun _ _ _ h => h.usable) (h.2 s hs)⟩

/-- What the server does at an event, lightly. -/
def EasyStep (env : Env) (fuel : Nat) (x : Host) : Event → Prop
  | .serve e calls => x.Lightly env fuel e calls
  | .packet calls => ∀ r ∈ x.next fuel, r.1.Lightly env fuel r.2 calls
  | _ => True

instance (env : Env) (fuel : Nat) (x : Host) : (e : Event) → Decidable (x.EasyStep env fuel e)
  | .serve .. => inferInstanceAs (Decidable (Lightly ..))
  | .packet _ => inferInstanceAs (Decidable (∀ r ∈ _, Lightly ..))
  | .message .. => .isTrue trivial
  | .transmitted => .isTrue trivial
  | .others _ => .isTrue trivial

theorem exchange_sound : Along (Sound Server.plenty 4) (step Server.plenty 4) home exchange := by
  refine along_mono (fun x e he h => ?_) (show Along (EasyStep Server.plenty 4) _ _ _ by decide +kernel)
  have hal : ∀ al sig, e = .message al sig → al.Succeeds := by
    rintro al sig rfl
    simp only [exchange, brings, List.mem_cons, List.not_mem_nil, or_false, reduceCtorEq, false_or] at he
    rcases he with he | he
    · cases he
      exact Reader.Alloc.unbounded_succeeds
    · cases he
      exact Reader.Alloc.unbounded_succeeds
  cases e with
  | serve se calls => exact Lightly.careful h
  | packet calls => exact fun y se hn => (h (y, se) hn).careful
  | message al sig => exact hal al sig rfl
  | transmitted => trivial
  | others bufs => trivial

theorem writes_transmitted_exchange : ∃ x, runs (step Server.plenty 4) home exchange = some x ∧
    ∃ ps : List WirePacket, x.sender.sent = ps.flatMap WirePacket.bytes ∧
      dataIn (ps.map WirePacket.incoming) = [(1, [1, 2, 3])] := by
  have hrun : (runs (step Server.plenty 4) home exchange).map (fun x => (decide x.sender.Idle, writtenData x.srv)) =
      some (true, [(1, [1, 2, 3])]) := by decide +kernel
  obtain ⟨x, hx, h⟩ := Option.map_eq_some_iff.1 hrun
  obtain ⟨hi, hw⟩ := Prod.mk.inj h
  obtain ⟨ps, -, -, -, hidle⟩ := writes_transmitted Server.plenty _ _ .unbounded _ _ 0 exchange 4 x
    Reader.Alloc.unbounded_succeeds exchange_sound hx
  obtain ⟨hs, hd⟩ := hidle (of_decide_eq_true hi)
  exact ⟨x, hx, ps, hs, hd.trans hw⟩

/-! ## What comes in -/

/-- **What the Pi sends is handled, and read**: the packets that the server has handled, and behind them those that are
still in the reader, are the packets whose last byte has come in; a packet that waits on a connection is held, with the
bytes that it came with; what the server releases next it holds, and nothing is released twice; and what clients read on
an id are payloads of packets for this id, in their order and each at most once. -/
theorem packets_read (env : Env) (obs : ObPtr → OutBuffer) (bufs : BufPtr → Buffer) (al : Reader.Alloc)
    (ibs : IbPtr → InBuffer) (bufs' : BufPtr → Buffer) (nullOffset : Nat) (es : List Event) (fuel : Nat) (x : Host)
    (hal : al.Succeeds) (hok : Along (Sound env fuel) (step env fuel) (start obs bufs al ibs bufs' nullOffset) es)
    (hx : runs (step env fuel) (start obs bufs al ibs bufs' nullOffset) es = some x) (ps : List WirePacket)
    (hps : x.received <+: ps.flatMap WirePacket.bytes) :
    (∃ ses, runs (Server.step env) Server.start ses = some x.srv ∧
      Server.arrived ses ++ x.intake.rx.rd.queue.map x.intake.rx.rd.view =
        (completed WirePacket.size ps x.received.length).map WirePacket.incoming) ∧
    (∀ ip, x.srv.Queued ip → ∃ i : Nat, x.holding[i]? = some ip ∧
      x.intake.rx.held[i]?.map x.intake.rx.rd.view = some ip.pac) ∧
    (∀ se s, x.srv.step env se = some s →
      (releases x.srv s).Nodup ∧ ∀ ip ∈ releases x.srv s, ip ∈ x.srv.newPacket se ∨ ip ∈ x.holding) ∧
    ∀ k, (Server.readOf k x.srv.replied).Sublist (Server.sentTo k (ps.map WirePacket.incoming)) := by
  have h := inv_run hal hok hx
  obtain ⟨ses, hses, harr⟩ := h.server
  rw [List.map_nil, List.append_nil] at harr
  obtain ⟨hall, hheld⟩ := h.fed.exact hps
  refine ⟨⟨ses, hses, by rw [harr, hall]⟩, fun ip hip => ?_, fun se s hs => ⟨?_, fun ip hip => ?_⟩, fun k => ?_⟩
  · obtain ⟨i, hi⟩ := List.mem_iff_getElem?.1 (h.waiting ip (.inr hip))
    refine ⟨i, hi, ?_⟩
    rw [← List.getElem?_map, hheld, ← h.held, List.getElem?_map, hi]
    rfl
  · have hn := ((Server.stocked_run hses).step hs).nodup
    exact ((List.nodup_append.1 hn).1.of_map _).sublist (List.drop_sublist _ _)
  · obtain ⟨rs, hrs, hfrom⟩ := (Server.custody_step hs).released
    rw [releases, hrs, List.drop_left] at hip
    exact (hfrom ip hip).imp_right fun hq => h.waiting ip (.inr hq)
  · have hr := (Server.received_run Server.received_start Server.distinct_start hses).stream k
    refine ((List.sublist_append_left _ _).trans hr).trans ?_
    rw [List.nil_append, harr]
    have hcome : completed WirePacket.size ps x.received.length <+: ps := completed_prefix ps _
    have hpre : x.taken.all <+: ps.map WirePacket.incoming :=
      (List.prefix_append _ _).trans (hall ▸ hcome.map _)
    exact ((hpre.filter _).map Incoming.data).sublist

theorem packets_read_exchange : ∃ x, runs (step Server.plenty 4) home exchange = some x ∧
    (∃ ses, runs (Server.step Server.plenty) Server.start ses = some x.srv ∧ (Server.arrived ses).length = 3) ∧
    Server.readOf 1 x.srv.replied = [[65, 66]] ∧
    ∀ k, (Server.readOf k x.srv.replied).Sublist (Server.sentTo k (answers.map WirePacket.incoming)) := by
  have hrun : (runs (step Server.plenty 4) home exchange).map (fun x =>
      (decide (x.received = answers.flatMap WirePacket.bytes), x.intake.rx.rd.queue.length,
        Server.readOf 1 x.srv.replied)) = some (true, 0, [[65, 66]]) := by decide +kernel
  obtain ⟨x, hx, h⟩ := Option.map_eq_some_iff.1 hrun
  simp only [Prod.mk.injEq, decide_eq_true_eq] at h
  obtain ⟨hr, hq, hread⟩ := h
  obtain ⟨⟨ses, hses, harr⟩, -, -, hk⟩ := packets_read Server.plenty _ _ .unbounded _ _ 0 exchange 4 x
    Reader.Alloc.unbounded_succeeds exchange_sound hx answers (hr ▸ List.prefix_refl _)
  refine ⟨x, hx, ⟨ses, hses, ?_⟩, hread, hk⟩
  have hlen := congrArg List.length harr
  rw [List.length_append, List.length_map, hq, hr] at hlen
  exact hlen.trans (by decide +kernel)

end Host

end AmiPiBorg
