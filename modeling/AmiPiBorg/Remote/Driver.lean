import AmiPiBorg.Remote.Defs
import AmiPiBorg.Lib.Ledger
import AmiPiBorg.Lib.Runs

/-!
# The serial driver (`remote/serialremote.c`)

`REM_OpenRemote` gets two ports and two requests from the system and opens the device with one of them; `REM_Read` and
`REM_Write` pass a request to the device, and `REM_HandleSignal` waits for it; `REM_CloseRemote` gives everything back.
`live` lists what the driver has of the system, and `sent` the requests that the device has. A step fails where the
source would follow a null pointer, pass on a request that the device has, or give back what it does not have.

Whoever reads only when `REM_CanRead` says so, and writes only when `REM_CanWrite` does, never gets there, and what the
driver has is what its fields say (`driver_sound`).
-/

set_option autoImplicit false

namespace AmiPiBorg

open ProgLib

/-- An object of the system. A device is known by the request that opened it. -/
inductive Driver.Obj where
  | port (n : Nat)
  | request (n : Nat)
  | device (n : Nat)
  deriving DecidableEq

/-- `struct Remote`, without the parameters of the device, and with what the driver has of the system. -/
structure Driver where
  readPort : Option Nat
  writePort : Option Nat
  readReq : Option Nat
  writeReq : Option Nat
  /-- The fields that a read uses. -/
  remote : Remote
  writeReady : Bool
  /-- Ghost: the objects that the driver has. -/
  live : List Driver.Obj
  /-- Ghost: the requests that the device has. -/
  sent : List Nat

namespace Driver

/-- What the system answers to `REM_OpenRemote`. -/
structure Answers where
  readPort : Option Nat
  writePort : Option Nat
  readReq : Option Nat
  writeReq : Option Nat
  device : Bool

/-- `REM_CreateRemote`, if there is memory. -/
def createRemote : Driver :=
  { readPort := none, writePort := none, readReq := none, writeReq := none,
    remote := { readBuf := none, readBufSize := 0, bytesRead := 0, readReady := false }, writeReady := false, live := [],
    sent := [] }

/-- `REM_CanRead`. -/
def canRead (d : Driver) : Bool := d.remote.readReady

/-- `REM_CanWrite`. -/
def canWrite (d : Driver) : Bool := d.writeReady

/-- What `REM_OpenRemote` gets from the system. `OpenDevice` is called with the write request. -/
def acquire (a : Answers) : List Obj → Option (Bool × List Obj) :=
  Ledger.within (a.readPort.map .port) <| Ledger.within (a.writePort.map .port) <|
    Ledger.within (a.readReq.map .request) <| Ledger.within (a.writeReq.map .request) fun l =>
      some (if a.device then (true, .device (a.writeReq.getD 0) :: l) else (false, l))

/-- `REM_OpenRemote`. -/
def openRemote (a : Answers) (d : Driver) : Option (Bool × Driver) :=
  (acquire a d.live).map fun r =>
    if r.1 then
      (true, { d with readPort := a.readPort, writePort := a.writePort, readReq := a.readReq, writeReq := a.writeReq,
                      remote := .openRemote, writeReady := true, live := r.2 })
    else (false, { d with live := r.2 })

/-- `REM_DeletePort`. -/
def deletePort (port : Option Nat) (l : List Obj) : Option (List Obj) := Ledger.giveAny (port.map .port) l

/-- Lines 301 to 308: the read request. -/
def closeRead (d : Driver) : Option Driver :=
  match d.readReq with
  | none => some d
  | some r =>
    -- after `AbortIO` and `WaitIO`
    (deletePort d.readPort d.live).bind fun l => (Ledger.give (.request r) l).map fun l =>
      { d with live := l, sent := d.sent.erase r }

/-- Lines 310 to 319: the write request, and the device. -/
def closeWrite (d : Driver) : Option Driver :=
  match d.writeReq with
  | none => some d
  | some w =>
    (Ledger.give (.device w) d.live).bind fun l => (deletePort d.writePort l).bind fun l =>
      (Ledger.give (.request w) l).map fun l => { d with live := l, sent := d.sent.erase w }

/-- `REM_CloseRemote`. -/
def closeRemote (d : Driver) : Option Driver :=
  (d.closeRead.bind closeWrite).map fun d =>
    { d with readPort := none, writePort := none, readReq := none, writeReq := none, writeReady := false,
             remote := { d.remote with readReady := false, readBuf := none } }

/-- `SendIO`. The device must not have the request. -/
def sendIO (d : Driver) (req : Option Nat) : Option Driver :=
  match req with
  | none => none
  | some r => if r ∈ d.sent then none else some { d with sent := r :: d.sent }

/-- `WaitIO`. -/
def waitIO (d : Driver) (req : Option Nat) : Option Driver := req.map fun r => { d with sent := d.sent.erase r }

/-- `REM_Read`, with `BeginRead`. -/
def read (data : Option Addr) (length : Nat) (d : Driver) : Option Driver :=
  sendIO { d with remote := .read data length } d.readReq

/-- `REM_Write`. -/
def write (data : Option Addr) (length : Nat) (d : Driver) : Option Driver :=
  if data = none ∨ length = 0 then some d else sendIO { d with writeReady := false } d.writeReq

/-- `ContinueRead`: the read has brought `n` bytes, and the device holds `avail` more. `DoIO` passes the request on twice,
and waits for it. -/
def continueRead (n avail : Nat) (d : Driver) : Option Driver :=
  match d.readReq with
  | none => none
  | some r =>
    if r ∈ d.sent then none
    else
      let m := (d.remote.bytesRead + n) % 65536
      some { d with remote := { d.remote with bytesRead := (m + d.remote.continueSize m avail) % 65536 } }

/-- Lines 349 to 356. -/
def handleRead (n avail : Nat) (d : Driver) : Option Driver :=
  ((d.waitIO d.readReq).bind (continueRead n avail)).map fun d => { d with remote := { d.remote with readReady := true } }

/-- Lines 358 to 363. -/
def handleWrite (d : Driver) : Option Driver := (d.waitIO d.writeReq).map fun d => { d with writeReady := true }

/-- `REM_HandleSignal`, with the signals that are there. Both ports are looked at. -/
def handleSignal (readSig writeSig : Bool) (n avail : Nat) (d : Driver) : Option Driver :=
  if d.readPort = none ∨ d.writePort = none then none
  else ((if readSig then d.handleRead n avail else some d)).bind fun d => if writeSig then d.handleWrite else some d

/-- What is done with the driver. -/
inductive Call where
  | openRemote (a : Answers)
  | closeRemote
  | read (data : Option Addr) (length : Nat)
  | write (data : Option Addr) (length : Nat)
  | handleSignal (readSig writeSig : Bool) (n avail : Nat)

def step (d : Driver) : Call → Option Driver
  | .openRemote a => (d.openRemote a).map Prod.snd
  | .closeRemote => d.closeRemote
  | .read data length => d.read data length
  | .write data length => d.write data length
  | .handleSignal r w n avail => d.handleSignal r w n avail

/-- The objects that the system answers with are new. -/
structure Answers.Fresh (a : Answers) : Prop where
  ports : a.readPort ≠ none → a.readPort ≠ a.writePort
  reqs : a.readReq ≠ none → a.readReq ≠ a.writeReq

/-- A caller that asks first. It handles signals when there are ports that they come from, and opens what is closed. -/
def Asks (d : Driver) : Call → Prop
  | .openRemote a => a.Fresh ∧ d.readReq = none
  | .read .. => d.canRead = true
  | .write .. => d.canWrite = true
  | .handleSignal .. => d.readPort ≠ none
  | .closeRemote => True

instance (a : Answers) : Decidable a.Fresh :=
  decidable_of_iff ((a.readPort ≠ none → a.readPort ≠ a.writePort) ∧ (a.readReq ≠ none → a.readReq ≠ a.writeReq))
    ⟨fun h => ⟨h.1, h.2⟩, fun h => ⟨h.1, h.2⟩⟩

instance : DecidableRel Asks
  | d, .openRemote a => inferInstanceAs (Decidable (a.Fresh ∧ d.readReq = none))
  | d, .read .. => inferInstanceAs (Decidable (d.canRead = true))
  | d, .write .. => inferInstanceAs (Decidable (d.canWrite = true))
  | d, .handleSignal .. => inferInstanceAs (Decidable (d.readPort ≠ none))
  | _, .closeRemote => inferInstanceAs (Decidable True)

/-- The driver has nothing, and its fields say so. -/
structure Closed (d : Driver) : Prop where
  readPort : d.readPort = none
  writePort : d.writePort = none
  readReq : d.readReq = none
  writeReq : d.writeReq = none
  canRead : d.canRead = false
  canWrite : d.canWrite = false
  live : d.live = []
  sent : d.sent = []

/-- The driver has two ports, two requests and the device, and its fields say which. The device has the requests that are
not ready. -/
structure Opened (p q r w : Nat) (d : Driver) : Prop where
  readPort : d.readPort = some p
  writePort : d.writePort = some q
  readReq : d.readReq = some r
  writeReq : d.writeReq = some w
  reqs : r ≠ w
  live : d.live.Perm [.device w, .request w, .request r, .port q, .port p]
  nodup : d.sent.Nodup
  only : ∀ n ∈ d.sent, n = r ∨ n = w
  reading : r ∈ d.sent ↔ d.canRead = false
  writing : w ∈ d.sent ↔ d.canWrite = false

/-- The driver is in order. -/
def InOrder (d : Driver) : Prop := d.Closed ∨ ∃ p q r w, Opened p q r w d

variable {d d' : Driver} {a : Answers} {c : Call} {p q r w n avail : Nat} {data : Option Addr} {length : Nat}

theorem closed_createRemote : createRemote.Closed := ⟨rfl, rfl, rfl, rfl, rfl, rfl, rfl, rfl⟩

/-! ## Opening and closing -/

theorem acquire_allOrNothing (a : Answers) : Ledger.AllOrNothing (acquire a)
    ([.device (a.writeReq.getD 0)] ++ (a.writeReq.map Obj.request).toList ++ (a.readReq.map Obj.request).toList ++
      (a.writePort.map Obj.port).toList ++ (a.readPort.map Obj.port).toList) :=
  ((((Ledger.allOrNothing_last a.device _).within _).within _).within _).within _

/-- **Opening** gets everything or nothing. -/
theorem openRemote_cases (h : d.Closed) (hf : a.Fresh) : ∃ b d', d.openRemote a = some (b, d') ∧
    (b = false ∧ d'.Closed ∨ b = true ∧ ∃ p q r w, Opened p q r w d') := by
  rcases acquire_allOrNothing a d.live with ha | ha
  · refine ⟨_, _, by rw [openRemote, ha]; rfl, .inl ⟨rfl, ?_⟩⟩
    exact ⟨h.readPort, h.writePort, h.readReq, h.writeReq, h.canRead, h.canWrite, h.live, h.sent⟩
  · -- then every part has succeeded
    obtain ⟨⟨p, hp⟩, ⟨q, hq⟩, ⟨r, hr⟩, ⟨w, hw⟩⟩ : (∃ p, a.readPort = some p) ∧ (∃ q, a.writePort = some q) ∧
        (∃ r, a.readReq = some r) ∧ ∃ w, a.writeReq = some w := by
      unfold acquire Ledger.within at ha
      cases hp : a.readPort with
      | none => simp [hp] at ha
      | some p =>
        cases hq : a.writePort with
        | none => simp [hp, hq] at ha
        | some q =>
          cases hr : a.readReq with
          | none => simp [hp, hq, hr] at ha
          | some r =>
            cases hw : a.writeReq with
            | none => simp [hp, hq, hr, hw] at ha
            | some w => exact ⟨⟨p, rfl⟩, ⟨q, rfl⟩, ⟨r, rfl⟩, ⟨w, rfl⟩⟩
    refine ⟨_, _, by rw [openRemote, ha]; rfl, .inr ⟨rfl, p, q, r, w, hp, hq, hr, hw, ?_, ?_, ?_, ?_, ?_, ?_⟩⟩
    · rintro rfl
      exact hf.reqs (by rw [hr]; exact nofun) (hr.trans hw.symm)
    · simp [h.live, hp, hq, hr, hw]
    · exact h.sent ▸ List.nodup_nil
    · exact fun n hn => absurd (h.sent ▸ hn) List.not_mem_nil
    · exact ⟨fun hn => absurd (h.sent ▸ hn) List.not_mem_nil, nofun⟩
    · exact ⟨fun hn => absurd (h.sent ▸ hn) List.not_mem_nil, nofun⟩

theorem give_port {l m : List Obj} (h : l.Perm (.port p :: m)) : ∃ l', deletePort (some p) l = some l' ∧ l'.Perm m :=
  Ledger.give_perm h

/-- **Closing** gives back everything. -/
theorem Opened.close (h : Opened p q r w d) : ∃ d', d.closeRemote = some d' ∧ d'.Closed := by
  -- the order in which things are given back
  have hperm : d.live.Perm [.port p, .request r, .device w, .port q, .request w] := by
    refine h.live.trans (List.perm_iff_count.2 fun o => ?_)
    simp only [List.count_cons, List.count_nil]
    omega
  obtain ⟨l₁, h₁, hp₁⟩ := give_port hperm
  obtain ⟨l₂, h₂, hp₂⟩ := Ledger.give_perm hp₁
  obtain ⟨l₃, h₃, hp₃⟩ := Ledger.give_perm hp₂
  obtain ⟨l₄, h₄, hp₄⟩ := give_port hp₃
  obtain ⟨l₅, h₅, hp₅⟩ := Ledger.give_perm hp₄
  have hd : d.closeRemote = some
      { readPort := none, writePort := none, readReq := none, writeReq := none, writeReady := false,
        remote := { d.remote with readReady := false, readBuf := none }, live := l₅,
        sent := (d.sent.erase r).erase w } := by
    simp only [closeRemote, closeRead, closeWrite, h.readReq, h.writeReq, h.readPort, h.writePort, h₁, h₂, h₃, h₄, h₅,
      Option.bind_some, Option.map_some]
  refine ⟨_, hd, ⟨rfl, rfl, rfl, rfl, rfl, rfl, hp₅.eq_nil, ?_⟩⟩
  refine List.eq_nil_iff_forall_not_mem.2 fun n hn => ?_
  have hn' := (h.nodup.erase r).mem_erase_iff.1 hn
  have hn'' := h.nodup.mem_erase_iff.1 hn'.2
  rcases h.only n hn''.2 with rfl | rfl
  · exact hn''.1 rfl
  · exact hn'.1 rfl

/-- A remote that is closed can be closed again. -/
theorem Closed.close (h : d.Closed) : ∃ d', d.closeRemote = some d' ∧ d'.Closed := by
  have hd : d.closeRemote = some
      { d with readPort := none, writePort := none, readReq := none, writeReq := none, writeReady := false,
               remote := { d.remote with readReady := false, readBuf := none } } := by
    simp only [closeRemote, closeRead, closeWrite, h.readReq, h.writeReq, Option.bind_some, Option.map_some]
  exact ⟨_, hd, ⟨rfl, rfl, rfl, rfl, rfl, rfl, h.live, h.sent⟩⟩

/-! ## Requests -/

/-- The driver, but for what a request changes. -/
theorem Opened.update (h : Opened p q r w d) {remote : Remote} {ready : Bool} {sent : List Nat} (hn : sent.Nodup)
    (ho : ∀ n ∈ sent, n = r ∨ n = w) (hr : r ∈ sent ↔ remote.readReady = false) (hw : w ∈ sent ↔ ready = false) :
    Opened p q r w { d with remote := remote, writeReady := ready, sent := sent } :=
  ⟨h.readPort, h.writePort, h.readReq, h.writeReq, h.reqs, h.live, hn, ho, hr, hw⟩

theorem Opened.read (h : Opened p q r w d) (hc : d.canRead = true) (data : Option Addr) (length : Nat) :
    ∃ d', d.read data length = some d' ∧ Opened p q r w d' := by
  have hr : r ∉ d.sent := fun hm => absurd (hc.symm.trans (h.reading.1 hm)) nofun
  have hd : d.read data length = some { d with remote := .read data length, sent := r :: d.sent } := by
    simp only [Driver.read, sendIO, h.readReq, if_neg hr]
  refine ⟨_, hd, h.update (List.nodup_cons.2 ⟨hr, h.nodup⟩) ?_ ⟨fun _ => rfl, fun _ => List.mem_cons_self⟩ ?_⟩
  · exact fun n hn => (List.mem_cons.1 hn).elim .inl (h.only n)
  · rw [List.mem_cons, or_iff_right (Ne.symm h.reqs)]
    exact h.writing

theorem Opened.write (h : Opened p q r w d) (hc : d.canWrite = true) (data : Option Addr) (length : Nat) :
    ∃ d', d.write data length = some d' ∧ Opened p q r w d' := by
  by_cases hn : data = none ∨ length = 0
  · exact ⟨d, if_pos hn, h⟩
  have hw : w ∉ d.sent := fun hm => absurd (hc.symm.trans (h.writing.1 hm)) nofun
  have hd : d.write data length = some { d with writeReady := false, sent := w :: d.sent } := by
    simp only [Driver.write, if_neg hn, sendIO, h.writeReq, if_neg hw]
  refine ⟨_, hd, h.update (List.nodup_cons.2 ⟨hw, h.nodup⟩) ?_ ?_ ⟨fun _ => rfl, fun _ => List.mem_cons_self⟩⟩
  · exact fun n hn => (List.mem_cons.1 hn).elim .inr (h.only n)
  · rw [List.mem_cons, or_iff_right h.reqs]
    exact h.reading

theorem Opened.handleRead (h : Opened p q r w d) (n avail : Nat) :
    ∃ d', d.handleRead n avail = some d' ∧ Opened p q r w d' := by
  have hr : r ∉ d.sent.erase r := h.nodup.not_mem_erase
  let m := (d.remote.bytesRead + n) % 65536
  have hd : d.handleRead n avail = some { d with
      remote := { d.remote with bytesRead := (m + d.remote.continueSize m avail) % 65536, readReady := true },
      sent := d.sent.erase r } := by
    simp only [Driver.handleRead, waitIO, h.readReq, Option.map_some, Option.bind_some, continueRead, if_neg hr, m]
  refine ⟨_, hd, h.update (h.nodup.erase r) ?_ ⟨fun hm => absurd hm hr, nofun⟩ ?_⟩
  · exact fun n hn => h.only n (List.mem_of_mem_erase hn)
  · rw [List.mem_erase_of_ne (Ne.symm h.reqs)]
    exact h.writing

theorem Opened.handleWrite (h : Opened p q r w d) : ∃ d', d.handleWrite = some d' ∧ Opened p q r w d' := by
  have hd : d.handleWrite = some { d with writeReady := true, sent := d.sent.erase w } := by
    simp only [Driver.handleWrite, waitIO, h.writeReq, Option.map_some]
  refine ⟨_, hd, h.update (h.nodup.erase w) ?_ ?_ ⟨fun hm => absurd hm h.nodup.not_mem_erase, nofun⟩⟩
  · exact fun n hn => h.only n (List.mem_of_mem_erase hn)
  · rw [List.mem_erase_of_ne h.reqs]
    exact h.reading

theorem Opened.handleSignal (h : Opened p q r w d) (readSig writeSig : Bool) (n avail : Nat) :
    ∃ d', d.handleSignal readSig writeSig n avail = some d' ∧ Opened p q r w d' := by
  obtain ⟨d₁, h₁, ho₁⟩ : ∃ d₁, (if readSig then d.handleRead n avail else some d) = some d₁ ∧ Opened p q r w d₁ := by
    cases readSig
    · exact ⟨d, rfl, h⟩
    · exact h.handleRead n avail
  have hp : ¬(d.readPort = none ∨ d.writePort = none) := by
    rw [h.readPort, h.writePort]
    exact nofun
  unfold Driver.handleSignal
  rw [if_neg hp, h₁, Option.bind_some]
  cases writeSig
  · exact ⟨d₁, rfl, ho₁⟩
  · exact ho₁.handleWrite

/-! ## Runs -/

/-- **Every call** of a caller that asks first gets through, and leaves the driver in order. -/
theorem InOrder.step (h : d.InOrder) (hok : d.Asks c) : ∃ d', d.step c = some d' ∧ d'.InOrder := by
  rcases h with h | ⟨p, q, r, w, h⟩
  · cases c with
    | openRemote a =>
      obtain ⟨b, d', hd, ⟨-, hc⟩ | ⟨-, ho⟩⟩ := openRemote_cases h hok.1
      · exact ⟨d', by rw [Driver.step, hd]; rfl, .inl hc⟩
      · exact ⟨d', by rw [Driver.step, hd]; rfl, .inr ho⟩
    | closeRemote =>
      obtain ⟨d', hd, hc⟩ := h.close
      exact ⟨d', hd, .inl hc⟩
    | read data length => exact absurd (h.canRead.symm.trans hok) nofun
    | write data length => exact absurd (h.canWrite.symm.trans hok) nofun
    | handleSignal readSig writeSig n avail => exact absurd h.readPort hok
  · cases c with
    | openRemote a => exact absurd (h.readReq.symm.trans hok.2) nofun
    | closeRemote =>
      obtain ⟨d', hd, hc⟩ := h.close
      exact ⟨d', hd, .inl hc⟩
    | read data length =>
      obtain ⟨d', hd, ho⟩ := h.read hok data length
      exact ⟨d', hd, .inr ⟨p, q, r, w, ho⟩⟩
    | write data length =>
      obtain ⟨d', hd, ho⟩ := h.write hok data length
      exact ⟨d', hd, .inr ⟨p, q, r, w, ho⟩⟩
    | handleSignal readSig writeSig n avail =>
      obtain ⟨d', hd, ho⟩ := h.handleSignal readSig writeSig n avail
      exact ⟨d', hd, .inr ⟨p, q, r, w, ho⟩⟩

/-- **The driver is sound** for callers that ask first: no null pointer is followed, no request is passed on that the
device has, and nothing is given back twice. What the driver has of the system is what its fields say: nothing, or all of
the ports, the requests and the device, and the device has the requests that are not ready. -/
theorem driver_sound (cs : List Call) (hok : Along Asks step createRemote cs) :
    ∃ d, runs step createRemote cs = some d ∧ d.InOrder :=
  runs_some InOrder (fun _ _ h ho => h.step ho) (.inl closed_createRemote) hok

/-- The system runs out of requests, then opening succeeds, a byte is read while a write is under way, and the remote is
closed twice. -/
theorem driver_sound_closed : ∃ d : Driver, runs step createRemote
      [.openRemote ⟨some 0, some 1, some 2, none, true⟩, .openRemote ⟨some 0, some 1, some 2, some 3, true⟩,
        .read (some (0, 0)) 4096, .write (some (1, 0)) 14, .handleSignal true false 1 0, .closeRemote, .closeRemote] =
      some d ∧ d.InOrder :=
  driver_sound _ (by decide +kernel)

end Driver

end AmiPiBorg
