import AmiPiBorg.Remote.Driver
import AmiPiBorg.Server.Stages

/-!
# The server and its remote

A `Plant` is the server with the serial driver. `APB_Run` opens the remote in one of its states and closes it in another,
and in between the server reads and writes where `REM_CanRead` and `REM_CanWrite` let it, in whatever order its timer, its
clients and the device make it. The driver is never called in a state that it is not made for, and what it got from the
system is given back when the server has stopped (`remote_sound`).
-/

set_option autoImplicit false

namespace AmiPiBorg

open ProgLib

structure Plant where
  srv : Server
  driver : Driver

namespace Plant

def start : Plant := { srv := .start, driver := .createRemote }

/-- `REM_Read`, as `APB_SrvBeginRead` calls it. -/
def srvBeginRead (data : Option Addr) (length : Nat) (d : Driver) : Option Driver :=
  if d.canRead then d.read data length else some d

/-- `REM_Write`, as `APB_SrvSendToRemote` calls it. -/
def srvSendToRemote (data : Option Addr) (length : Nat) (d : Driver) : Option Driver :=
  if d.canWrite then d.write data length else some d

inductive Event where
  /-- An iteration of the loop of `APB_Run` that opens the remote, and reads from it. -/
  | openRemote (a : Driver.Answers) (data : Option Addr) (length : Nat)
  /-- Another event of the server. -/
  | serve (e : Server.Event)
  /-- `REM_HandleSignal`. -/
  | handleSignal (readSig writeSig : Bool) (n avail : Nat)
  /-- `APB_SrvBeginRead`. -/
  | beginRead (data : Option Addr) (length : Nat)
  /-- `APB_SrvSendToRemote`. -/
  | sendToRemote (data : Option Addr) (length : Nat)

def step (env : Env) (x : Plant) : Event → Option Plant
  | .openRemote a data length =>
    (x.driver.openRemote a).bind fun r =>
      (if r.1 then srvBeginRead data length r.2 else some r.2).bind fun d =>
        (x.srv.step env (.run r.1)).map fun s => { srv := s, driver := d }
  | .serve e =>
    -- the last iteration closes the remote
    (if x.srv.phase = .loop ∧ x.srv.state = .closingRemote then x.driver.closeRemote else some x.driver).bind fun d =>
      (x.srv.step env e).map fun s => { srv := s, driver := d }
  | .handleSignal r w n avail => (x.driver.handleSignal r w n avail).map fun d => { x with driver := d }
  | .beginRead data length => (srvBeginRead data length x.driver).map fun d => { x with driver := d }
  | .sendToRemote data length => (srvSendToRemote data length x.driver).map fun d => { x with driver := d }

/-- Events come when the source has them come. Packets can be sent at any time, and the server has memory for the
connections that it makes. -/
def Sound (env : Env) (x : Plant) : Event → Prop
  | .openRemote a _ _ => x.srv.phase = .loop ∧ x.srv.state = .openingRemote ∧ a.Fresh
  | .serve e => x.srv.Enabled e ∧ ¬(x.srv.phase = .loop ∧ x.srv.state = .openingRemote) ∧ (x.srv.step env e).isSome
  | .handleSignal .. => x.srv.phase = .remote
  | .beginRead .. => x.srv.phase = .remote
  | .sendToRemote .. => True

instance (env : Env) (x : Plant) : (e : Event) → Decidable (Sound env x e)
  | .openRemote .. => inferInstanceAs (Decidable (_ ∧ _ ∧ _))
  | .serve _ => inferInstanceAs (Decidable (_ ∧ _ ∧ _))
  | .handleSignal .. => inferInstanceAs (Decidable (_ = _))
  | .beginRead .. => inferInstanceAs (Decidable (_ = _))
  | .sendToRemote .. => .isTrue trivial

/-- What the driver has at a stage of the server. -/
def Holds (d : Driver) : ServerState.Stage → Prop
  | .closed | .stopped => d.Closed
  | .opening | .serving => ∃ p q r w, Driver.Opened p q r w d
  | .closing => d.InOrder

/-- The driver has what it should have, and the server waits only while it serves. -/
structure Inv (x : Plant) : Prop where
  waiting : x.srv.Waiting
  holds : Holds x.driver x.srv.state.stage

variable {env : Env} {x x' : Plant} {d : Driver} {st : ServerState.Stage} {e : Event} {se : Server.Event}

theorem Holds.inOrder (h : Holds d st) : d.InOrder := by
  cases st with
  | closed => exact .inl h
  | opening => exact .inr h
  | serving => exact .inr h
  | closing => exact h
  | stopped => exact .inl h

/-- A driver that is not closed is open, and may be what it is as long as it is open. -/
theorem Holds.opened (h : Holds d st) (hn : ¬d.Closed) : (∃ p q r w, Driver.Opened p q r w d) ∧
    ∀ d', (∃ p q r w, Driver.Opened p q r w d') → Holds d' st := by
  cases st with
  | closed => exact absurd h hn
  | opening => exact ⟨h, fun _ h' => h'⟩
  | serving => exact ⟨h, fun _ h' => h'⟩
  | closing => exact ⟨h.resolve_left hn, fun _ h' => .inr h'⟩
  | stopped => exact absurd h hn

/-- A read that is not possible is not tried. -/
theorem srvBeginRead_some (h : Holds d st) (data : Option Addr) (length : Nat) :
    ∃ d', srvBeginRead data length d = some d' ∧ Holds d' st := by
  unfold srvBeginRead
  split
  · next hc =>
    obtain ⟨⟨p, q, r, w, ho⟩, hset⟩ := h.opened fun hn => absurd (hn.canRead.symm.trans hc) nofun
    obtain ⟨d', hd, ho'⟩ := ho.read hc data length
    exact ⟨d', hd, hset d' ⟨p, q, r, w, ho'⟩⟩
  · exact ⟨d, rfl, h⟩

/-- Nor is a write. -/
theorem srvSendToRemote_some (h : Holds d st) (data : Option Addr) (length : Nat) :
    ∃ d', srvSendToRemote data length d = some d' ∧ Holds d' st := by
  unfold srvSendToRemote
  split
  · next hc =>
    obtain ⟨⟨p, q, r, w, ho⟩, hset⟩ := h.opened fun hn => absurd (hn.canWrite.symm.trans hc) nofun
    obtain ⟨d', hd, ho'⟩ := ho.write hc data length
    exact ⟨d', hd, hset d' ⟨p, q, r, w, ho'⟩⟩
  · exact ⟨d, rfl, h⟩

/-- The remote is opened, or the server stops. -/
theorem Inv.openRemote (h : x.Inv) {a : Driver.Answers} (hp : x.srv.phase = .loop) (hs : x.srv.state = .openingRemote)
    (hf : a.Fresh) (data : Option Addr) (length : Nat) :
    ∃ x', x.step env (.openRemote a data length) = some x' ∧ x'.Inv := by
  have hc : x.driver.Closed := by
    have := h.holds
    rwa [hs] at this
  obtain ⟨b, d, hd, hor⟩ := Driver.openRemote_cases hc hf
  have hw := (Server.runStep_after env x.srv b hp).2
  have hst : (x.srv.runStep env b).state = if b then .openingClient else .stopping := by simp only [Server.runStep, hs]
  rcases hor with ⟨rfl, ho⟩ | ⟨rfl, ho⟩
  · refine ⟨⟨x.srv.runStep env false, d⟩, by simp [step, hd, Server.step], hw, ?_⟩
    show Holds d (x.srv.runStep env false).state.stage
    rw [hst]
    exact .inl ho
  · have hh : Holds d .opening := ho
    obtain ⟨d', hd', ho'⟩ := srvBeginRead_some hh data length
    refine ⟨⟨x.srv.runStep env true, d'⟩, by simp [step, hd, hd', Server.step], hw, ?_⟩
    show Holds d' (x.srv.runStep env true).state.stage
    rw [hst]
    exact ho'

/-- A driver that is in order is closed, whatever it has. -/
theorem close_some (h : d.InOrder) : ∃ d', d.closeRemote = some d' ∧ d'.Closed := by
  rcases h with h | ⟨p, q, r, w, h⟩
  · exact h.close
  · exact h.close

/-- **An iteration of the loop** that does not open the remote closes it, or lets it be. -/
theorem Inv.run (h : x.Inv) {ok : Bool} (hp : x.srv.phase = .loop) (hn : x.srv.state ≠ .openingRemote) :
    ∃ x', x.step env (.serve (.run ok)) = some x' ∧ x'.Inv := by
  obtain ⟨hafter, hw⟩ := Server.runStep_after env x.srv ok hp
  have hio := h.holds.inOrder
  by_cases hs : x.srv.state = .closingRemote
  · obtain ⟨d, hd, hc⟩ := close_some hio
    refine ⟨⟨x.srv.runStep env ok, d⟩, by simp [step, hp, hs, hd, Server.step], hw, ?_⟩
    rw [hs] at hafter
    show Holds d (x.srv.runStep env ok).state.stage
    rw [show (x.srv.runStep env ok).state = .stopped from hafter]
    exact hc
  · refine ⟨⟨x.srv.runStep env ok, x.driver⟩, by simp [step, hs, Server.step], hw, ?_⟩
    have hh := h.holds
    show Holds x.driver (x.srv.runStep env ok).state.stage
    obtain ht | ht | ⟨hst, ht⟩ := hafter.stage hn hs
    · rw [ht]
      exact hh
    · rw [ht]
      exact hio
    · rw [hst] at hh
      rw [ht]
      exact hh

/-- **Every event** gets through, and leaves the driver with what it should have. -/
theorem Inv.step (h : x.Inv) (hok : x.Sound env e) : ∃ x', x.step env e = some x' ∧ x'.Inv := by
  cases e with
  | openRemote a data length => exact h.openRemote hok.1 hok.2.1 hok.2.2 data length
  | serve e =>
    obtain ⟨hen, hn, hsome⟩ := hok
    by_cases hp : x.srv.phase = .loop
    · cases e with
      | run ok => exact h.run hp fun hs => hn ⟨hp, hs⟩
      | wake brk => cases hp.symm.trans hen
      | timer fired => cases hp.symm.trans hen.1
      | request req => cases hp.symm.trans hen.1
      | requestsDone => cases hp.symm.trans hen
      | packet seq pac => cases hp.symm.trans hen
      | packetsDone => cases hp.symm.trans hen
    · obtain ⟨s, hs⟩ := Option.isSome_iff_exists.1 hsome
      have hst := h.waiting.step hen hp hs
      refine ⟨⟨s, x.driver⟩, by simp [Plant.step, hp, hs], fun _ => hst, ?_⟩
      have hh := h.holds
      rw [(h.waiting hp).1] at hh
      show Holds x.driver s.state.stage
      rw [hst.1]
      exact hh
  | handleSignal readSig writeSig n avail =>
    have hp : x.srv.phase ≠ .loop := by rw [show x.srv.phase = .remote from hok]; nofun
    have hst := (h.waiting hp).1
    have hh := h.holds
    rw [hst] at hh
    obtain ⟨p, q, r, w, ho⟩ := hh
    obtain ⟨d, hd, ho'⟩ := ho.handleSignal readSig writeSig n avail
    refine ⟨{ x with driver := d }, by simp [Plant.step, hd], h.waiting, ?_⟩
    show Holds d x.srv.state.stage
    rw [hst]
    exact ⟨p, q, r, w, ho'⟩
  | beginRead data length =>
    obtain ⟨d, hd, hh⟩ := srvBeginRead_some h.holds data length
    exact ⟨{ x with driver := d }, by simp [Plant.step, hd], h.waiting, hh⟩
  | sendToRemote data length =>
    obtain ⟨d, hd, hh⟩ := srvSendToRemote_some h.holds data length
    exact ⟨{ x with driver := d }, by simp [Plant.step, hd], h.waiting, hh⟩

theorem inv_start : start.Inv := ⟨fun h => absurd rfl h, Driver.closed_createRemote⟩

/-- **The server keeps to the rules of its driver**, in every run: it follows no null pointer of the driver's, it passes on
no request that the device has, and it gives nothing back twice. The remote is open whenever the server waits, and when
the server has stopped everything that the driver got from the system is given back. -/
theorem remote_sound (env : Env) {es : List Event} (hok : Along (Sound env) (step env) start es) :
    ∃ x, runs (step env) start es = some x ∧ x.driver.InOrder ∧
      (x.srv.phase ≠ .loop → ∃ p q r w, Driver.Opened p q r w x.driver) ∧
      (x.srv.state = .stopped → x.driver.Closed) := by
  obtain ⟨x, hx, hI⟩ := runs_some Inv (fun _ _ h ho => h.step ho) inv_start hok
  have hh := hI.holds
  refine ⟨x, hx, hh.inOrder, fun hp => ?_, fun hs => ?_⟩
  · rw [(hI.waiting hp).1] at hh
    exact hh
  · rw [hs] at hh
    exact hh

/-- The server connects, a byte comes in while the first packet goes out, and a break ends it. -/
def briefly : List Event :=
  [.serve (.run true), .openRemote ⟨some 0, some 1, some 2, some 3, true⟩ (some (0, 0)) 4096, .serve (.run true),
    .serve (.run true), .sendToRemote (some (1, 0)) 18, .serve (.wake false), .serve (.timer false),
    .serve .requestsDone, .handleSignal true true 1 0, .beginRead (some (0, 1)) 4095, .sendToRemote none 0,
    .serve .packetsDone, .serve (.run true), .serve (.wake true), .serve (.timer false), .serve .requestsDone,
    .serve .packetsDone, .serve (.run true), .serve (.run true), .serve (.run true), .serve (.run true)]

theorem remote_sound_briefly : ∃ x, runs (step Server.plenty) start briefly = some x ∧ x.driver.InOrder ∧
    (x.srv.phase ≠ .loop → ∃ p q r w, Driver.Opened p q r w x.driver) ∧
    (x.srv.state = .stopped → x.driver.Closed) := remote_sound Server.plenty (by decide +kernel)

end Plant

end AmiPiBorg
