import AmiPiBorg.Reader.Links
import AmiPiBorg.Remote.Defs

/-!
# Reads stay in the buffer

Between events the remote has been asked for all that the read buffer has room for, and for a byte at least (`Asked`).
So what the device stores fits the buffer, and an event is one of the reader's events on these bytes
(`message_refines`). It stays so as long as `APB_SrvBeginRead` gets a buffer whenever it needs one, and none but the
reader has the read buffer (`reads_in_bounds`). A full buffer that is not replaced is read into all the same
(`full_buffer_overrun`).
-/

set_option autoImplicit false

namespace AmiPiBorg

open ProgLib

namespace Reader

variable {s s' : Reader} {al : Alloc} {b c : BufPtr} {bs bs' : List UInt8} {off n : Nat}

/-- Storing in two parts. -/
theorem store_append (m : Mem) (off : Nat) (bs bs' : List UInt8) :
    (m.store off bs).store (off + bs.length) bs' = m.store off (bs ++ bs') := by
  funext i
  by_cases h : i < off
  · rw [Mem.store_of_lt (by omega), Mem.store_of_lt h, Mem.store_of_lt h]
  obtain ⟨k, rfl⟩ : ∃ k, i = off + k := ⟨i - off, by omega⟩
  by_cases h₁ : k < bs.length
  · have h₂ := Mem.store_at m off (show k < (bs ++ bs').length by rw [List.length_append]; omega)
    have h₃ := Mem.store_at m off h₁
    rw [List.getElem?_append_left h₁, ← h₃] at h₂
    rw [Mem.store_of_lt (by omega), Option.some.inj h₂]
  by_cases h₂ : k < bs.length + bs'.length
  · have h₃ := Mem.store_at m off (show k < (bs ++ bs').length by rw [List.length_append]; omega)
    have h₄ := Mem.store_at (m.store off bs) (off + bs.length) (show k - bs.length < bs'.length by omega)
    rw [List.getElem?_append_right (by omega), ← h₄, show off + bs.length + (k - bs.length) = off + k by omega] at h₃
    exact (Option.some.inj h₃).symm
  · rw [Mem.store_of_ge (by omega), Mem.store_of_ge (by omega), Mem.store_of_ge (by rw [List.length_append]; omega)]

theorem storeAt_append : (s.storeAt b off bs).storeAt b (off + bs.length) bs' = s.storeAt b off (bs ++ bs') := by
  simp only [storeAt, setBuf, Function.update_self, Function.update_idem, store_append]

theorem storeAt_nil : s.storeAt b off [] = s := by
  have hdata : (s.bufs b).data.store off [] = (s.bufs b).data := funext fun i => by
    by_cases h : i < off
    · rw [Mem.store_of_lt h]
    · rw [Mem.store_of_ge (by simpa using h)]
  simp only [storeAt, setBuf, hdata]
  rw [Function.update_eq_self]

/-- A read that fits is stored, and then counted. -/
theorem addOffset_storeAt (h : (s.bufs b).offset + bs.length ≤ bufferSize) :
    (s.storeAt b (s.bufs b).offset bs).addOffset b bs.length = s.fill b bs := by
  simp only [bufferSize] at h
  simp only [storeAt, addOffset, fill, setBuf, Function.update_self, Function.update_idem]
  rw [Nat.mod_eq_of_lt (by omega)]

/-- The parser changes no `Buffer`, and frees none. -/
theorem process_bufs {fuel : Nat} (h : s.processBuffer fuel al b = some s') : s'.bufs = s.bufs ∧ s'.bufUse = s.bufUse := by
  simp only [processBuffer] at h
  obtain ⟨r, hr, h⟩ := Option.bind_eq_some_iff.1 h
  obtain ⟨h₁, h₂⟩ := append_bufs hr
  split at h
  · have hs := loop_sameLayout h
    exact ⟨hs.bufs.trans h₁, hs.bufUse.trans h₂⟩
  · cases h
    exact ⟨h₁, h₂⟩

end Reader

namespace Intake

/-- The bytes that a message brings, when none of the read were there before. -/
def brought (x : Intake) : Option (List UInt8 × List UInt8) → List UInt8
  | none => []
  | some (first, pending) => first ++ pending.take (x.remote.continueSize first.length pending.length)

/-- The server gets a buffer when the bytes of a message fill the read buffer, and no release frees the read buffer. -/
def Supplied (x : Intake) : Event → Prop
  | .message al sig => x.offset + (x.brought sig).length = bufferSize → ∀ s, (al.buffer s).isSome
  | .release i => ∀ ip b, x.rx.held[i]? = some ip → x.rx.readBuffer = some b → b ∈ (x.rx.rd.releaseInPacket ip).bufUse
  | _ => True

/-- The remote has been asked for as much as the read buffer `b` has room for, and `n` bytes have come. -/
structure Asked (x : Intake) (b : BufPtr) (n : Nat) : Prop where
  readBuffer : x.rx.readBuffer = some b
  inUse : b ∈ x.rx.rd.bufUse
  readBuf : x.remote.readBuf = some (b, (x.rx.rd.bufs b).offset)
  size : (x.rx.rd.bufs b).offset + x.remote.readBufSize = bufferSize
  room : 0 < x.remote.readBufSize
  bytesRead : x.remote.bytesRead = n
  le : n ≤ x.remote.readBufSize
  acts : ∀ a ∈ x.acts, a.InBounds

variable {x y : Intake} {al : Reader.Alloc} {b : BufPtr} {n : Nat} {fuel : Nat}
  {sig : Option (List UInt8 × List UInt8)}

theorem Asked.offset_eq (h : x.Asked b n) : x.offset = (x.rx.rd.bufs b).offset := by
  simp only [offset, h.readBuffer]

/-- The second read of a message is for no more than there is room for. -/
theorem continueSize_le (r : Remote) (n avail : Nat) (hn : n ≤ r.readBufSize) (hr : r.readBufSize ≤ bufferSize) :
    n + r.continueSize n avail ≤ r.readBufSize := by
  simp only [Remote.continueSize, bufferSize] at *
  split <;> omega

/-! ## The bytes come -/

/-- **What a message brings** is stored behind the bytes of the read buffer, and fits. -/
theorem handleSignal_asked {first pending : List UInt8} (h : x.Asked b 0) (hs : x.handleSignal first pending = some y) :
    y.Asked b (x.brought (some (first, pending))).length ∧ y.remote.readReady = true ∧
      y.rx = { x.rx with
        rd := x.rx.rd.storeAt b (x.rx.rd.bufs b).offset (x.brought (some (first, pending))) } := by
  have hroom := h.room
  have hsize := h.size
  simp only [handleSignal] at hs
  split at hs
  · cases hs
  rename_i hfirst
  cases hs
  have hle : first.length ≤ 1 := Nat.not_lt.1 fun hlt => hfirst (.inl hlt)
  have hn : (x.remote.bytesRead + first.length) % 65536 = first.length := by
    rw [h.bytesRead]
    omega
  have hcont := continueSize_le x.remote first.length pending.length (by omega) (by omega)
  rw [hn]
  generalize hrest : pending.take (x.remote.continueSize first.length pending.length) = rest
  have hrest' : rest.length ≤ x.remote.continueSize first.length pending.length := by
    rw [← hrest, List.length_take]
    exact Nat.min_le_left _ _
  have hb : x.brought (some (first, pending)) = first ++ rest := by rw [brought, hrest]
  have hlen : (first ++ rest).length = first.length + rest.length := List.length_append
  have hmod : (first.length + rest.length) % 65536 = first.length + rest.length := by
    rw [Nat.mod_eq_of_lt]
    simp only [bufferSize] at *
    omega
  have hrx : ((x.store 0 first).store first.length rest).rx =
      { x.rx with rd := x.rx.rd.storeAt b (x.rx.rd.bufs b).offset (first ++ rest) } := by
    simp only [store, h.readBuf, Nat.add_zero, Reader.storeAt_append]
  have hoff : ((x.rx.rd.storeAt b (x.rx.rd.bufs b).offset (first ++ rest)).bufs b).offset = (x.rx.rd.bufs b).offset := by
    simp only [Reader.storeAt, Reader.setBuf, Function.update_self]
  rw [hb, hlen, hmod]
  refine ⟨⟨?_, ?_, ?_, ?_, hroom, rfl, by show _ ≤ x.remote.readBufSize; omega, ?_⟩, rfl, hrx⟩
  · rw [hrx]
    exact h.readBuffer
  · rw [hrx]
    exact h.inUse
  · rw [hrx, hoff]
    exact h.readBuf
  · rw [hrx, hoff]
    exact hsize
  · intro a ha
    simp only [store, List.mem_append, List.mem_singleton] at ha
    rcases ha with (ha | rfl) | rfl
    · exact h.acts a ha
    · show 0 + first.length ≤ x.remote.readBufSize
      omega
    · show first.length + rest.length ≤ x.remote.readBufSize
      omega

/-! ## The next read -/

/-- **`APB_SrvBeginRead`** asks for what fits, if it gets a buffer where it needs one. -/
theorem beginRead_asked (hb : ∀ b, x.rx.readBuffer = some b → b ∈ x.rx.rd.bufUse ∧ (x.rx.rd.bufs b).offset ≤ bufferSize)
    (hal : (∀ b, x.rx.readBuffer = some b → (x.rx.rd.bufs b).offset = bufferSize) → (al.buffer x.rx.rd).isSome)
    (hr : x.remote.readReady = true) (hacts : ∀ a ∈ x.acts, a.InBounds) : ∃ b, (srvBeginRead al x).Asked b 0 := by
  -- behind the choice of a buffer there is one, with room
  have hroom : ∃ b, (x.rx.srvBeginRead al).readBuffer = some b ∧ b ∈ (x.rx.srvBeginRead al).rd.bufUse ∧
      ((x.rx.srvBeginRead al).rd.bufs b).offset < bufferSize := by
    by_cases hneed : ∀ b, x.rx.readBuffer = some b → (x.rx.rd.bufs b).offset = bufferSize
    · obtain ⟨c, hc⟩ := Option.isSome_iff_exists.1 (hal hneed)
      have hx : x.rx.srvBeginRead al = { x.rx with rd := x.rx.rd.allocateBuffer c, readBuffer := some c } := by
        rw [Rx.srvBeginRead, if_pos, hc]
        rw [Option.all_eq_true]
        exact fun b hb => decide_eq_true (hneed b hb)
      rw [hx]
      refine ⟨c, rfl, List.mem_cons_self, ?_⟩
      rw [Reader.bufs_allocateBuffer_self]
      exact Nat.succ_pos _
    · obtain ⟨b, hrb, hne⟩ : ∃ b, x.rx.readBuffer = some b ∧ (x.rx.rd.bufs b).offset ≠ bufferSize := by
        simpa only [not_forall, exists_prop] using hneed
      have hx : x.rx.srvBeginRead al = x.rx := by
        rw [Rx.srvBeginRead, if_neg]
        rw [hrb, Option.all_some, decide_eq_true_eq]
        exact hne
      rw [hx]
      exact ⟨b, hrb, (hb b hrb).1, lt_of_le_of_ne (hb b hrb).2 hne⟩
  obtain ⟨b, hrb, huse, hlt⟩ := hroom
  refine ⟨b, ?_⟩
  simp only [srvBeginRead, hr, if_true, remRead]
  have hcur : ({ x with rx := x.rx.srvBeginRead al } : Intake).current =
      some (b, ((x.rx.srvBeginRead al).rd.bufs b).offset) := by
    rw [current, hrb]
    rfl
  have havail : ({ x with rx := x.rx.srvBeginRead al } : Intake).avail =
      bufferSize - ((x.rx.srvBeginRead al).rd.bufs b).offset := by
    simp only [avail, offset, hrb, bufferSize] at *
    omega
  rw [hcur, havail]
  refine ⟨hrb, huse, rfl, ?_, ?_, rfl, Nat.zero_le _, fun a ha => ?_⟩
  · simp only [Remote.read]
    omega
  · simp only [Remote.read]
    omega
  · rcases List.mem_append.1 ha with ha | ha
    · exact hacts a ha
    · rw [List.mem_singleton.1 ha]
      simp only [Act.InBounds]
      omega

/-- **The bytes are taken**, and the next read asked for. -/
theorem receive_asked (h : y.Asked b n) (hr : y.remote.readReady = true)
    (hal : y.offset + n = bufferSize → ∀ s, (al.buffer s).isSome) {z : Intake}
    (hs : srvReceiveFromRemote fuel al y = some z) : ∃ c, z.Asked c 0 := by
  have hsize := h.size
  have hle := h.le
  simp only [srvReceiveFromRemote, h.readBuffer, hr, h.bytesRead] at hs
  split at hs
  · rename_i h0
    cases hs
    have hn : n = 0 := h0.resolve_left nofun
    exact ⟨b, hn ▸ h⟩
  · obtain ⟨rd, hp, rfl⟩ := Option.map_eq_some_iff.1 hs
    obtain ⟨hbufs, huse⟩ := Reader.process_bufs hp
    have hoff : ((y.rx.rd.addOffset b n).bufs b).offset = (y.rx.rd.bufs b).offset + n := by
      simp only [Reader.addOffset, Reader.setBuf, Function.update_self, bufferSize] at *
      omega
    refine beginRead_asked ?_ ?_ hr ?_
    · rintro c ⟨⟩
      show b ∈ rd.bufUse ∧ (rd.bufs b).offset ≤ _
      rw [hbufs, huse, hoff]
      exact ⟨h.inUse, by omega⟩
    · intro hfull
      have hb : (rd.bufs b).offset = bufferSize := hfull b rfl
      rw [hbufs, hoff] at hb
      exact hal (h.offset_eq ▸ hb) rd
    · intro a ha
      rcases List.mem_append.1 ha with ha | ha
      · exact h.acts a ha
      · rw [List.mem_singleton.1 ha]
        show ((y.rx.rd.addOffset b n).bufs b).offset ≤ _
        omega

/-! ## Events -/

/-- Another user of the pool, or the queue, changes nothing that the read depends on. -/
theorem Asked.congr {rx : Rx} (h : x.Asked b n) (hrb : rx.readBuffer = x.rx.readBuffer) (hb : b ∈ rx.rd.bufUse)
    (hbufs : rx.rd.bufs b = x.rx.rd.bufs b) : ({ x with rx := rx } : Intake).Asked b n :=
  ⟨hrb.trans h.readBuffer, hb, by rw [hbufs]; exact h.readBuf, by rw [hbufs]; exact h.size, h.room, h.bytesRead, h.le,
    h.acts⟩

/-- **Every event** leaves the remote asked for what fits. -/
theorem asked_step {e : Event} {b : BufPtr} (h : x.Asked b 0) (hok : x.Supplied e) (hs : x.step fuel e = some y) :
    ∃ c, y.Asked c 0 := by
  cases e with
  | message al sig =>
    cases sig with
    | none =>
      have hs' : srvReceiveFromRemote fuel al x = some y := hs
      rw [srvReceiveFromRemote, if_pos (.inr h.bytesRead)] at hs'
      cases hs'
      exact ⟨b, h⟩
    | some p =>
      obtain ⟨first, pending⟩ := p
      obtain ⟨z, hz, hs⟩ := Option.bind_eq_some_iff.1 hs
      obtain ⟨hasked, hready, hrx⟩ := handleSignal_asked h hz
      refine receive_asked hasked hready (fun hfull => hok ?_) hs
      rw [hasked.offset_eq, hrx] at hfull
      simp only [Reader.storeAt, Reader.setBuf, Function.update_self] at hfull
      rw [h.offset_eq]
      exact hfull
  | dequeue =>
    simp only [step] at hs
    obtain ⟨rx, hrx, rfl⟩ := Option.map_eq_some_iff.1 hs
    cases hrx
    obtain ⟨q, m, hd, -⟩ := Rx.dequeue_cases x.rx.rd
    rw [hd]
    exact ⟨b, h.congr rfl h.inUse rfl⟩
  | release i =>
    simp only [step] at hs
    obtain ⟨rx, hrx, rfl⟩ := Option.map_eq_some_iff.1 hs
    simp only [Rx.step] at hrx
    split at hrx
    · cases hrx
    · rename_i ip hip
      cases hrx
      exact ⟨b, h.congr rfl (hok ip b hip h.readBuffer) (by rw [Reader.releaseInPacket_bufs])⟩
  | others bufs =>
    cases hs
    exact ⟨b, h.congr rfl h.inUse (if_pos h.inUse)⟩

/-- **Reads from the remote never leave the buffer**, whatever the device delivers and whatever others do, in every run
in which `APB_SrvBeginRead` gets a buffer whenever it needs one and no release frees the read buffer. -/
theorem reads_in_bounds (al : Reader.Alloc) (ibs : IbPtr → InBuffer) (bufs : BufPtr → Buffer) (nullOffset : Nat)
    (es : List Event) (fuel : Nat) (x : Intake) (hal : (al.buffer (.createPacketReader ibs bufs)).isSome)
    (hok : Along Supplied (step fuel) (start al ibs bufs nullOffset) es)
    (hx : runs (step fuel) (start al ibs bufs nullOffset) es = some x) : ∀ a ∈ x.acts, a.InBounds := by
  obtain ⟨b, h⟩ := runs_inv (fun x => ∃ b, Asked x b 0) (fun _ _ _ ⟨_, h⟩ ho hs => asked_step h ho hs)
    (beginRead_asked (fun _ h => (by cases h)) (fun _ => hal) rfl fun _ h => (by cases h)) hok hx
  exact h.acts

/-- The first two bytes. -/
theorem reads_in_bounds_two_bytes : ∃ x : Intake,
    runs (step 2) (start .unbounded (fun _ => default) (fun _ => default) 0) [.message .unbounded (some ([65], [109]))] =
      some x ∧ ∀ a ∈ x.acts, a.InBounds := by
  obtain ⟨x, hx⟩ := Option.isSome_iff_exists.1 (show (runs (step 2)
    (start .unbounded (fun _ => default) (fun _ => default) 0) [.message .unbounded (some ([65], [109]))]).isSome
    by decide +kernel)
  exact ⟨x, hx, reads_in_bounds .unbounded (fun _ => default) (fun _ => default) 0
    [.message .unbounded (some ([65], [109]))] 2 x rfl ⟨fun _ _ => rfl, fun _ _ => trivial⟩ hx⟩

/-! ## A buffer that is not replaced -/

/-- Pools that are empty. -/
def exhausted : Reader.Alloc where
  inBuffer _ := none
  inPacket _ := false
  buffer _ := none
  inBuffer_fresh := nofun
  buffer_fresh := nofun

/-- A message that fills the buffer, when no other can be had, and one of two bytes. -/
def overrun : List Event :=
  [.message exhausted (some ([0], List.replicate 4095 0)), .message exhausted (some ([0], [0]))]

/-- **A full buffer that is not replaced is read into**: `REM_Read` is called with no room, and the next two bytes are
stored behind the end of the buffer. -/
theorem full_buffer_overrun : (runs (step 2) (start .unbounded (fun _ => default) (fun _ => default) 0) overrun).map acts =
    some [.read (some (1, 0)) 4096, .store 0 1 4096, .store 1 4095 4096, .filled 4096, .read (some (1, 4096)) 0,
      .store 0 1 0, .store 1 1 0, .filled 4098, .read (some (1, 4098)) 65534] := by
  decide +kernel

/-- Not every run stays in bounds. -/
theorem reads_leave_buffer : ¬∀ (al : Reader.Alloc) (ibs : IbPtr → InBuffer) (bufs : BufPtr → Buffer)
    (nullOffset : Nat) (es : List Event) (fuel : Nat) (x : Intake),
    runs (step fuel) (start al ibs bufs nullOffset) es = some x → ∀ a ∈ x.acts, a.InBounds := by
  intro hall
  obtain ⟨x, hx, hacts⟩ := Option.map_eq_some_iff.1 full_buffer_overrun
  have h := hall .unbounded _ _ 0 overrun 2 x hx (.filled 4098) (by rw [hacts]; decide)
  exact absurd h (by decide)

/-! ## The reader's events -/

/-- **A message is an event of the reader**, on the bytes that it brings. -/
theorem message_refines (h : x.Asked b 0) (hs : x.step fuel (.message al sig) = some y) :
    x.rx.step fuel (.receive al (x.brought sig)) = some y.rx := by
  cases sig with
  | none =>
    have hs' : srvReceiveFromRemote fuel al x = some y := hs
    rw [srvReceiveFromRemote, if_pos (.inr h.bytesRead)] at hs'
    cases hs'
    rfl
  | some p =>
    obtain ⟨first, pending⟩ := p
    obtain ⟨z, hz, hs⟩ := Option.bind_eq_some_iff.1 hs
    obtain ⟨hasked, hready, hrx⟩ := handleSignal_asked h hz
    generalize x.brought (some (first, pending)) = bs at *
    have hsize := h.size
    have hle : bs.length ≤ x.remote.readBufSize := by
      have h₁ := hasked.le
      have h₂ := hasked.size
      rw [hrx] at h₂
      simp only [Reader.storeAt, Reader.setBuf, Function.update_self] at h₂
      omega
    have hfit : (x.rx.rd.bufs b).offset + bs.length ≤ bufferSize := by omega
    simp only [srvReceiveFromRemote, hasked.readBuffer, hready, hasked.bytesRead] at hs
    simp only [Rx.step, Rx.srvReceiveFromRemote, h.readBuffer]
    by_cases hbs : bs = []
    · rw [if_pos (.inr (List.length_eq_zero_iff.2 hbs))] at hs
      cases hs
      rw [if_pos hbs, hrx, hbs, Reader.storeAt_nil]
    · rw [if_neg fun h0 => h0.elim (fun h0 => by cases h0) fun h0 => hbs (List.length_eq_zero_iff.1 h0)] at hs
      rw [if_neg hbs, if_neg (Nat.not_lt.2 hfit)]
      rw [hrx] at hs
      simp only [Reader.addOffset_storeAt hfit] at hs
      obtain ⟨rd, hp, rfl⟩ := Option.map_eq_some_iff.1 hs
      rw [hp, Option.map_some]
      simp only [srvBeginRead, hready, if_true, remRead]

end Intake

end AmiPiBorg
