import AmiPiBorg.System.Sender
import AmiPiBorg.System.Receiver

/-!
# From one end of a line to the other

A packet writer at one end, a packet reader at the other, and between them two serial devices. The writer's side
allocates packets and writes buffers, the reader's side takes bytes, packets and releases them, in any order; the only
tie is that what comes in has gone out. What is taken out at the far end are the packets that were allocated, in order,
each once and with its payload (`line_exact`).
-/

set_option autoImplicit false

namespace AmiPiBorg

open ProgLib

/-- The line with both its ends. -/
structure Line where
  sender : Sender
  intake : Intake
  /-- The bytes that have come in. -/
  received : List UInt8
  /-- Ghost: the packets that were taken from the reader's queue. -/
  taken : Rx.Taken

namespace Line

inductive Event where
  | send (e : Tx.Event)
  | receive (e : Intake.Event)

def start (obs : ObPtr → OutBuffer) (bufs : BufPtr → Buffer) (al : Reader.Alloc) (ibs : IbPtr → InBuffer)
    (bufs' : BufPtr → Buffer) (nullOffset : Nat) : Line :=
  { sender := .start obs bufs, intake := .start al ibs bufs' nullOffset, received := [], taken := ⟨[], []⟩ }

/-- One event. What the device at the far end has for a message is what comes next of the bytes that were sent. -/
def step (fuel : Nat) (x : Line) : Event → Option Line
  | .send e => (x.sender.step e).map fun s => { x with sender := s }
  | .receive e =>
    if x.received ++ e.offered <+: x.sender.sent then
      (x.intake.step fuel e).map fun y =>
        { x with intake := y, received := x.received ++ x.intake.bring e, taken := x.intake.note e x.taken }
    else none

/-- The writer's steps are safe, and the reader's events are usable. -/
def Sound (x : Line) : Event → Prop
  | .send e => Tx.SafeStep x.sender.tx e
  | .receive e => x.intake.Usable e

/-- Both ends are in step with what was sent. -/
structure Inv (x : Line) : Prop where
  sending : ∃ S U, x.sender.Sending S U
  fed : x.intake.Fed x.received x.taken
  received : x.received <+: x.sender.sent

variable {x y : Line} {fuel : Nat} {e : Event}

theorem inv_start (obs : ObPtr → OutBuffer) (bufs : BufPtr → Buffer) {al : Reader.Alloc} (hal : al.Succeeds)
    (ibs : IbPtr → InBuffer) (bufs' : BufPtr → Buffer) (nullOffset : Nat) :
    (start obs bufs al ibs bufs' nullOffset).Inv :=
  ⟨⟨[], [], Sender.sending_start obs bufs⟩, Intake.fed_start hal ibs bufs' nullOffset, List.prefix_refl _⟩

theorem Inv.step (h : x.Inv) (hok : x.Sound e) (hs : x.step fuel e = some y) : y.Inv := by
  cases e with
  | send e =>
    obtain ⟨s, hsender, rfl⟩ := Option.map_eq_some_iff.1 hs
    obtain ⟨S, U, hsend⟩ := h.sending
    refine ⟨Sender.sending_step hsend hok hsender, h.fed, h.received.trans ?_⟩
    obtain ⟨tx, -, rfl⟩ := Option.map_eq_some_iff.1 hsender
    exact List.prefix_append _ _
  | receive e =>
    unfold Line.step at hs
    dsimp only at hs
    split at hs
    · next hoff =>
      obtain ⟨z, hz, rfl⟩ := Option.map_eq_some_iff.1 hs
      refine ⟨h.sending, h.fed.step hok hz, ?_⟩
      exact ((List.prefix_append_right_inj _).2 (x.intake.bring_prefix e)).trans hoff
    · cases hs

theorem inv_run {obs : ObPtr → OutBuffer} {bufs : BufPtr → Buffer} {al : Reader.Alloc} {ibs : IbPtr → InBuffer}
    {bufs' : BufPtr → Buffer} {nullOffset : Nat} {es : List Event} (hal : al.Succeeds)
    (hok : Along Sound (step fuel) (start obs bufs al ibs bufs' nullOffset) es)
    (hx : runs (step fuel) (start obs bufs al ibs bufs' nullOffset) es = some x) : x.Inv :=
  runs_inv Inv (fun _ _ _ h ho hs => h.step ho hs) (inv_start obs bufs hal ibs bufs' nullOffset) hok hx

/-- The packets that the reader has got out of the line. -/
def delivered (x : Line) : List Incoming := x.taken.all ++ x.intake.rx.rd.queue.map x.intake.rx.rd.view

/-- **A line delivers what is allocated at its other end**: the first packets, in order, each once and with its payload;
all of them when the writer is idle and everything that was sent has come in. A packet that is held is as it was when it
was taken. The reader never hangs on what comes in. -/
theorem line_exact (obs : ObPtr → OutBuffer) (bufs : BufPtr → Buffer) (al : Reader.Alloc) (ibs : IbPtr → InBuffer)
    (bufs' : BufPtr → Buffer) (nullOffset : Nat) (es : List Event) (fuel : Nat) (x : Line) (hal : al.Succeeds)
    (hok : Along Sound (step fuel) (start obs bufs al ibs bufs' nullOffset) es)
    (hx : runs (step fuel) (start obs bufs al ibs bufs' nullOffset) es = some x) :
    x.delivered <+: x.sender.tx.allocated ∧
      (x.sender.Idle → x.received = x.sender.sent → x.delivered = x.sender.tx.allocated) ∧
      x.intake.rx.held.map x.intake.rx.rd.view = x.taken.held ∧
      ∀ al' sig, al'.Succeeds → x.intake.Delivers (.message al' sig) →
        x.received ++ Intake.Event.offered (.message al' sig) <+: x.sender.sent →
        ∃ N, ∀ fuel ≥ N, ∃ y, x.step fuel (.receive (.message al' sig)) = some y := by
  have h := inv_run hal hok hx
  obtain ⟨S, U, hsend⟩ := h.sending
  obtain ⟨ps, hsent, hall, hidle⟩ := hsend.transmitted
  have hrec := h.received.trans hsent
  obtain ⟨htaken, hheld⟩ := h.fed.exact hrec
  refine ⟨?_, fun hi hr => ?_, hheld, fun al' sig hal' hd hoff => ?_⟩
  · rw [delivered, htaken]
    have hcome : completed WirePacket.size ps x.received.length <+: ps := completed_prefix ps _
    exact (hcome.map _).trans hall
  · obtain ⟨hs, ha⟩ := hidle hi
    rw [delivered, htaken, ← ha, hr, hs]
    have hc := completed_append ps [] (Segment.sum_sizes ps).le
    rw [List.append_nil] at hc
    rw [hc]
    exact congrArg _ (List.append_nil ps)
  · have hbring := (List.prefix_append_right_inj x.received).2 (x.intake.bring_prefix (.message al' sig))
    obtain ⟨N, hN⟩ := h.fed.message_total hal' hd ((hbring.trans hoff).trans hsent)
    refine ⟨N, fun fuel hf => ?_⟩
    obtain ⟨z, hz⟩ := hN fuel hf
    unfold Line.step
    dsimp only
    rw [if_pos hoff, hz]
    exact ⟨_, rfl⟩

/-- The writer's step, if it is one. -/
def Event.sends : Event → Option Tx.Event
  | .send e => some e
  | .receive _ => none

/-- A ping goes over the line. -/
def onePing : List Event :=
  let ping := WirePacket.sealed 0x23 0 1 [] Segment.nil_short
  [.send (Tx.ask 14), .send .write, .send .complete,
    .receive (.message .unbounded (some (ping.bytes.take 1, ping.bytes.drop 1))), .receive .dequeue]

theorem line_exact_ping : ∃ x : Line, runs (step 3) (start (fun _ => default) (fun _ => default) .unbounded
      (fun _ => default) (fun _ => default) 0) onePing = some x ∧ x.delivered = [⟨0x23, 0, 0, 1, []⟩] := by
  let s := start (fun _ => default) (fun _ => default) .unbounded (fun _ => default) (fun _ => default) 0
  have hrun : (runs (step 3) s onePing).map (fun x => (decide x.sender.Idle, decide (x.received = x.sender.sent),
      x.sender.tx.allocated)) = some (true, true, [⟨0x23, 0, 0, 1, []⟩]) := by decide +kernel
  have hok : Along Sound (step 3) s onePing := by
    refine along_mono (fun x e he h => ?_) (show Along (fun x e => ∀ e' ∈ Event.sends e, Tx.SafeStep x.sender.tx e')
      (step 3) s onePing by decide +kernel)
    simp only [onePing, List.mem_cons, List.not_mem_nil, or_false] at he
    rcases he with rfl | rfl | rfl | rfl | rfl
    · exact h _ rfl
    · exact h _ rfl
    · exact h _ rfl
    · exact Reader.Alloc.unbounded_succeeds
    · trivial
  obtain ⟨x, hx, h⟩ := Option.map_eq_some_iff.1 hrun
  simp only [Prod.mk.injEq, decide_eq_true_eq] at h
  obtain ⟨hi, hr, ha⟩ := h
  refine ⟨x, hx, ?_⟩
  rw [(line_exact _ _ .unbounded _ _ 0 onePing 3 x Reader.Alloc.unbounded_succeeds hok hx).2.1 hi hr, ha]

end Line

end AmiPiBorg
