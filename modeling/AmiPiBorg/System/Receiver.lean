import AmiPiBorg.Reader.Prompt
import AmiPiBorg.Remote.Bounds

/-!
# What the device brings

The receiving side as a whole: the serial device, the remote that fetches bytes from it, and the reader that takes
packets out of them. `Fed r x g` says that it has received the bytes `r` and is in step with every stream of packets
that goes on from there. Every event keeps this (`Fed.step`), and a message from the device is always taken
(`Fed.message_total`).
-/

set_option autoImplicit false

namespace AmiPiBorg

open ProgLib

namespace Intake

/-- The bytes that the device has for a message. -/
def Event.offered : Event → List UInt8
  | .message _ (some (first, pending)) => first ++ pending
  | _ => []

/-- The bytes of these that the message brings. -/
def bring (x : Intake) : Event → List UInt8
  | .message _ sig => x.brought sig
  | _ => []

/-- What an event adds to the account of the packets that were taken from the queue. -/
def note (x : Intake) : Event → Rx.Taken → Rx.Taken
  | .dequeue, g => x.rx.note .dequeue g
  | .release i, g => x.rx.note (.release i) g
  | _, g => g

/-- Pools answer, and a packet is released that is held, out of its own buffers and without freeing one that the parser
has before it. -/
def Usable (x : Intake) : Event → Prop
  | .message al _ => al.Succeeds
  | .release i => x.rx.Usable (.release i)
  | _ => True

/-- The device stores no more than it is asked for: one byte, and nothing unless it is asked. -/
def Delivers (x : Intake) : Event → Prop
  | .message _ (some (first, _)) => first.length ≤ 1 ∧ (x.remote.readReady = true → first = [])
  | _ => True

/-- The bytes `r` have been received, and the reader is in step with every stream of packets that goes on from there. -/
def Fed (r : List UInt8) (x : Intake) (g : Rx.Taken) : Prop :=
  ∀ ps : List WirePacket, r <+: ps.flatMap WirePacket.bytes → r.length < (ps.flatMap WirePacket.bytes).length →
    (∃ b, x.Asked b 0) ∧ Rx.InStep (ps.map Segment.bare) (Mem.ofList (ps.flatMap WirePacket.bytes)) r.length x.rx g

variable {x y : Intake} {al : Reader.Alloc} {b : BufPtr} {fuel : Nat} {r : List UInt8} {g : Rx.Taken} {e : Event}
  {sig : Option (List UInt8 × List UInt8)}

theorem bring_prefix (x : Intake) (e : Event) : x.bring e <+: e.offered := by
  cases e with
  | message al sig =>
    cases sig with
    | none => exact List.prefix_refl _
    | some p =>
      obtain ⟨first, pending⟩ := p
      exact (List.prefix_append_right_inj first).2 (List.take_prefix _ _)
  | _ => exact List.prefix_refl _

theorem fed_start (hal : al.Succeeds) (ibs : IbPtr → InBuffer) (bufs : BufPtr → Buffer) (nullOffset : Nat) :
    Fed [] (start al ibs bufs nullOffset) ⟨[], []⟩ := by
  intro ps _ _
  refine ⟨beginRead_asked (fun _ h => (by cases h)) (fun _ => hal.buffer _) rfl fun _ h => (by cases h), ?_⟩
  have h := Rx.inStep_start hal ibs bufs (Segment.quiet_bare ps) (Segment.clear_bare ps 0)
  rw [Segment.streamOf_bare] at h
  exact h

/-- What a message brings fits the read buffer. -/
theorem receive_fits {bs : List UInt8} {rx' : Rx} {all : List Segment} {S : Mem} {n : Nat} (h : Rx.InStep all S n x.rx g)
    (hs : x.rx.srvReceiveFromRemote fuel al bs = some rx') : n % bufferSize + bs.length ≤ bufferSize := by
  obtain ⟨cur, ⟨P, segs, base, l, rb, c, -, -, hc, -, hoff, -⟩, -⟩ := h.synced
  obtain ⟨rfl, -⟩ | ⟨d, rd, -, hd, hfit, -⟩ := Rx.receive_cases hs
  · have := Nat.mod_lt n (show 0 < bufferSize by decide)
    exact this.le
  · cases hc.symm.trans hd
    rwa [hoff] at hfit

/-- **Every event** leaves the receiving side in step. -/
theorem Fed.step (h : Fed r x g) (hu : x.Usable e) (hs : x.step fuel e = some y) :
    Fed (r ++ x.bring e) y (x.note e g) := by
  intro ps hpre hlt
  have hlen : r.length ≤ (r ++ x.bring e).length := by simp
  obtain ⟨⟨b, hask⟩, hin⟩ := h ps ((List.prefix_append _ _).trans hpre) (hlen.trans_lt hlt)
  have hstream := Segment.streamOf_bare ps
  rw [List.length_append] at hlt ⊢
  cases e with
  | message al sig =>
    have hrx : x.rx.srvReceiveFromRemote fuel al (x.brought sig) = some y.rx := message_refines hask hs
    obtain ⟨N, rx', hstep, hin'⟩ := hin.receive hu (Mem.holds_of_prefix hpre) (receive_fits hin hrx) (by rw [hstream]; exact hlt)
    obtain rfl : rx' = y.rx := Option.some.inj
      ((hstep _ (Nat.le_max_left N fuel)).symm.trans (Rx.srvReceiveFromRemote_mono hrx (Nat.le_max_right N fuel)))
    exact ⟨asked_step hask (e := .message al sig) (fun _ => hu.buffer) hs, hin'⟩
  | dequeue =>
    obtain ⟨rx', hstep, hin'⟩ := hin.dequeue
    have hs' := hs
    simp only [Intake.step, hstep, Option.map_some, Option.some.injEq] at hs'
    subst hs'
    exact ⟨asked_step hask (e := .dequeue) trivial hs, hin'⟩
  | release i =>
    obtain ⟨rx', hstep, hin'⟩ := hin.release (by rw [hstream]; omega) hu
    have hs' := hs
    simp only [Intake.step, hstep, Option.map_some, Option.some.injEq] at hs'
    subst hs'
    refine ⟨asked_step hask (e := .release i) (fun ip c hi hc => ?_) hs, hin'⟩
    -- the read buffer is not freed
    obtain ⟨⟨L, k, -⟩, -⟩ := hin'.exact
    have hrx' := hstep 0
    simp only [Rx.step, hi, Option.some.injEq] at hrx'
    subst hrx'
    exact (k.1.read c hc).1
  | others bufs =>
    have hin' := hin.others bufs
    refine ⟨asked_step hask (e := .others bufs) trivial hs, ?_⟩
    cases hs
    exact hin'

/-- Where the reader takes what a message brings, the message is handled. -/
theorem message_of_receive (h : x.Asked b 0) (hd : x.Delivers (.message al sig)) {rx' : Rx}
    (hr : x.rx.step fuel (.receive al (x.brought sig)) = some rx') : ∃ y, x.step fuel (.message al sig) = some y := by
  cases sig with
  | none => exact ⟨x, if_pos (.inr h.bytesRead)⟩
  | some p =>
    obtain ⟨first, pending⟩ := p
    obtain ⟨z, hz⟩ : ∃ z, x.handleSignal first pending = some z := by
      unfold handleSignal
      rw [if_neg fun hn => hn.elim (Nat.not_lt.2 hd.1) fun hn => hn.2 (hd.2 hn.1)]
      exact ⟨_, rfl⟩
    obtain ⟨hasked, hready, hrx⟩ := handleSignal_asked h hz
    obtain ⟨w, hw⟩ : ∃ w, srvReceiveFromRemote fuel al z = some w := by
      unfold srvReceiveFromRemote
      obtain ⟨hbs, -⟩ | ⟨c, rd, hne, hrb, hfit, hp, -⟩ := Rx.receive_cases hr
      · exact ⟨z, if_pos (.inr (by rw [hasked.bytesRead, hbs]; rfl))⟩
      · cases hrb.symm.trans h.readBuffer
        rw [if_neg fun hn => hn.elim (fun hn => absurd (hready.symm.trans hn) nofun)
          fun hn => hne (List.length_eq_zero_iff.1 (hasked.bytesRead.symm.trans hn)), hasked.readBuffer, hrx]
        dsimp only
        rw [hasked.bytesRead, Reader.addOffset_storeAt hfit, hp]
        exact ⟨_, rfl⟩
    exact ⟨w, by rw [Intake.step, hz]; exact hw⟩

/-- What the device brings fits the read. -/
theorem brought_le (h : x.Asked b 0) (hd : x.Delivers (.message al sig)) :
    (x.brought sig).length ≤ x.remote.readBufSize := by
  cases sig with
  | none => exact Nat.zero_le _
  | some p =>
    obtain ⟨first, pending⟩ := p
    have hroom := h.room
    have hsize := h.size
    have hfirst : first.length ≤ 1 := hd.1
    have hcont := continueSize_le x.remote first.length pending.length (by omega) (by omega)
    have htake := List.length_take_le (x.remote.continueSize first.length pending.length) pending
    rw [brought, List.length_append]
    omega

/-- **A message is always taken**: the parser comes to an end, whatever the device has. -/
theorem Fed.message_total (h : Fed r x g) (hal : al.Succeeds) (hd : x.Delivers (.message al sig))
    {ps : List WirePacket} (hpre : r ++ x.brought sig <+: ps.flatMap WirePacket.bytes) :
    ∃ N, ∀ fuel ≥ N, ∃ y, x.step fuel (.message al sig) = some y := by
  have hlen := Segment.length_trailing ps
  have hpos := Segment.trailing_pos
  have hle := hpre.length_le
  rw [List.length_append] at hle
  have hpre' := Segment.prefix_trailing hpre
  obtain ⟨⟨b, hask⟩, hin⟩ := h (ps ++ [Segment.trailing]) ((List.prefix_append _ _).trans hpre') (by omega)
  have hfit : r.length % bufferSize + (x.brought sig).length ≤ bufferSize := by
    obtain ⟨cur, ⟨P, segs, base, l, rb, c, -, -, hc, -, hoff, -⟩, -⟩ := hin.synced
    cases hc.symm.trans hask.readBuffer
    have hle := brought_le hask hd
    have hsize := hask.size
    omega
  obtain ⟨N, rx', hstep, -⟩ := hin.receive hal (Mem.holds_of_prefix hpre') hfit
    (by rw [Segment.streamOf_bare]; omega)
  exact ⟨N, fun fuel hf => message_of_receive hask hd (hstep fuel hf)⟩

/-- **What was received**: the packets that were taken from the queue, and those on it, are the packets of the stream
whose last byte has arrived, and a packet that is held is as it was when it was taken. -/
theorem Fed.exact (h : Fed r x g) {ps : List WirePacket} (hpre : r <+: ps.flatMap WirePacket.bytes) :
    g.all ++ x.rx.rd.queue.map x.rx.rd.view = (completed WirePacket.size ps r.length).map WirePacket.incoming ∧
      x.rx.held.map x.rx.rd.view = g.held := by
  have hlen := Segment.length_trailing ps
  have hpos := Segment.trailing_pos
  have hle := hpre.length_le
  obtain ⟨-, hin⟩ := h (ps ++ [Segment.trailing]) (Segment.prefix_trailing hpre) (by omega)
  exact ⟨by rw [← hin.taken, Segment.arrived_trailing ps hle], hin.held⟩

end Intake

end AmiPiBorg
