import AmiPiBorg.Writer.Transmit

/-!
# What the device transmits

`REM_Write` hands the serial device a pointer, and the bytes are read while the device transmits them. A `Sender` is a
packet writer with the bytes that have left the device: those of a write are taken from its buffer when the write ends.
As long as the steps are safe, they are the bytes that the write began with (`sending_step`), so what is transmitted and
what is still in flight is what was written.
-/

set_option autoImplicit false

namespace AmiPiBorg

open ProgLib Writer

/-- A packet writer, and all the bytes that the device has transmitted. -/
structure Sender where
  tx : Tx
  sent : List UInt8

namespace Sender

def start (obs : ObPtr → OutBuffer) (bufs : BufPtr → Buffer) : Sender := { tx := .start obs bufs, sent := [] }

/-- What the device has read when an event is over. -/
def transmits (x : Tx) : Tx.Event → List UInt8
  | .complete => (x.inFlight.map fun w => (x.wr.bufs w.data.1).data.slice w.data.2 w.bytes.length).getD []
  | _ => []

/-- One event. -/
def step (x : Sender) (e : Tx.Event) : Option Sender :=
  (x.tx.step e).map fun tx => { tx := tx, sent := x.sent ++ transmits x.tx e }

/-- The writer's invariant, with a write in flight that has what it needs, and nothing written but what is transmitted
or in flight. -/
structure Sending (x : Sender) (S U : List Listed) : Prop extends x.tx.Inv S U where
  aloft : x.tx.Aloft S U
  written : x.tx.wire = x.sent ++ (x.tx.inFlight.map Write.bytes).getD []

variable {x x' : Sender} {S U : List Listed} {e : Tx.Event}

theorem sending_start (obs : ObPtr → OutBuffer) (bufs : BufPtr → Buffer) : (start obs bufs).Sending [] [] :=
  ⟨Tx.start_inv obs bufs, fun _ hw => (by cases hw), rfl⟩

/-- What a step of the writer does to the line. -/
theorem wire_step {x x' : Tx} (hok : Tx.SafeStep x e) (hs : Tx.step x e = some x') (h : x.Unharmed) {sent : List UInt8}
    (hw : x.wire = sent ++ (x.inFlight.map Write.bytes).getD []) :
    x'.wire = sent ++ transmits x e ++ (x'.inFlight.map Write.bytes).getD [] := by
  cases e with
  | alloc al packId length type connId payload =>
    obtain ⟨⟨w, r⟩, -, rfl⟩ := Option.map_eq_some_iff.1 hs
    show _ = sent ++ [] ++ _
    rw [List.append_nil]
    cases r with
    | none => exact hw
    | some p => exact hw
  | write =>
    obtain ⟨⟨w, r⟩, -, rfl⟩ := Option.map_eq_some_iff.1 hs
    have hidle : x.inFlight = none := hok
    rw [hidle, Option.map_none, Option.getD_none, List.append_nil] at hw
    show x.wire ++ _ = sent ++ [] ++ _
    rw [List.append_nil, hidle, Option.or_none, hw]
  | complete =>
    cases hs
    rw [hw]
    cases hfly : x.inFlight with
    | none => simp [transmits, hfly]
    | some w =>
      have hbytes := (h w hfly).2.2
      simp [transmits, hfly, hbytes]
  | resend al packId =>
    obtain ⟨w, -, rfl⟩ := Option.map_eq_some_iff.1 hs
    show _ = sent ++ [] ++ _
    rw [List.append_nil]
    exact hw

/-- **Every safe step** is transmitted as it was written. -/
theorem sending_step (h : x.Sending S U) (hok : Tx.SafeStep x.tx e) (hs : x.step e = some x') :
    ∃ S' U', x'.Sending S' U' := by
  obtain ⟨tx, htx, rfl⟩ := Option.map_eq_some_iff.1 hs
  obtain ⟨S', U', hv, ha⟩ := Tx.step_aloft h.toInv h.aloft hok htx
  exact ⟨S', U', hv, ha, wire_step hok htx (h.aloft.unharmed h.toInv) h.written⟩

/-- Every packet that was allocated is transmitted: no write is in flight, and no packet is left. -/
def Idle (x : Sender) : Prop := x.tx.inFlight = none ∧ ∀ op ∈ x.tx.wr.recents, op.sent = true

instance (x : Sender) : Decidable x.Idle := inferInstanceAs (Decidable (_ ∧ _))

/-- **What is transmitted**: the packets on the wire are the first ones that were allocated, and the bytes that have
left the device are the first ones of these. -/
theorem Sending.transmitted (h : x.Sending S U) : ∃ ps : List WirePacket, x.sent <+: ps.flatMap WirePacket.bytes ∧
    ps.map WirePacket.incoming <+: x.tx.allocated ∧
    (x.Idle → x.sent = ps.flatMap WirePacket.bytes ∧ ps.map WirePacket.incoming = x.tx.allocated) := by
  obtain ⟨ps, hwire, hall⟩ := h.wire
  rw [h.written] at hwire
  refine ⟨ps, ⟨_, hwire⟩, ⟨_, hall.symm⟩, fun ⟨hfly, hsent⟩ => ⟨?_, ?_⟩⟩
  · rw [← hwire, hfly]
    exact (List.append_nil _).symm
  · -- what is not sent is listed as such
    have hU : U = [] := by
      by_contra hne
      obtain ⟨y, hy⟩ := List.exists_mem_of_ne_nil U hne
      have hlisted : y.1 ∈ x.tx.wr.recents := by
        rw [h.recents]
        exact List.mem_map_of_mem (List.mem_append_right S hy)
      have hunsent := (h.pending.owner y hy).2
      rw [hsent y.1 hlisted] at hunsent
      cases hunsent
    rw [hall, hU]
    exact (List.append_nil _).symm

end Sender

end AmiPiBorg
