import AmiPiBorg.Reader.Defs

/-!
# What the reader's operations change

* The field updates of the parser leave the layout of the buffers alone: `SameLayout`.
* `accept` queues a packet, makes its last buffer the parser's and moves the offset of that buffer.
* `skip` moves an offset by two, or moves the parser's buffer, and `badData` is `skip` on one of two buffers.
-/

set_option autoImplicit false

namespace AmiPiBorg.Reader

open ProgLib

variable {s s' : Reader} {a b ib ib1 : IbPtr}

/-! ## Field updates -/

theorem ibs_setIb (v : InBuffer) : (s.setIb a v).ibs b = if b = a then v else s.ibs b :=
  Function.update_apply ..

@[simp] theorem ibs_setIb_self (v : InBuffer) : (s.setIb a v).ibs a = v := Function.update_self ..

theorem ibs_setIb_of_ne (v : InBuffer) (h : b ≠ a) : (s.setIb a v).ibs b = s.ibs b := Function.update_of_ne h ..

/-- The buffers, their contents and their links are the same, and the same objects are in use. -/
structure SameLayout (s s' : Reader) : Prop where
  bufs : s'.bufs = s.bufs
  buf : ∀ a, (s'.ibs a).buf = (s.ibs a).buf
  next : ∀ a, (s'.ibs a).next = (s.ibs a).next
  canRelease : ∀ a, (s'.ibs a).canRelease = (s.ibs a).canRelease
  ibUse : s'.ibUse = s.ibUse
  bufUse : s'.bufUse = s.bufUse

namespace SameLayout

theorem refl (s : Reader) : SameLayout s s := ⟨rfl, fun _ => rfl, fun _ => rfl, fun _ => rfl, rfl, rfl⟩

theorem trans {t : Reader} (h : SameLayout s s') (h' : SameLayout s' t) : SameLayout s t :=
  ⟨h'.bufs.trans h.bufs, fun a => (h'.buf a).trans (h.buf a), fun a => (h'.next a).trans (h.next a),
    fun a => (h'.canRelease a).trans (h.canRelease a), h'.ibUse.trans h.ibUse, h'.bufUse.trans h.bufUse⟩

theorem next_eq (h : SameLayout s s') : s'.next = s.next := funext h.next

theorem bytes_eq (h : SameLayout s s') : s'.bytes = s.bytes :=
  funext fun a => by simp only [bytes, h.bufs, h.buf]

theorem data_eq (h : SameLayout s s') : s'.data = s.data :=
  funext fun a => by simp only [data, h.bufs, h.buf]

theorem mem_eq (h : SameLayout s s') : s'.mem = s.mem :=
  funext fun a => by cases a <;> simp only [mem, h.bufs]

theorem setIb {v : InBuffer} (hb : v.buf = (s.ibs a).buf) (hn : v.next = (s.ibs a).next)
    (hc : v.canRelease = (s.ibs a).canRelease) : SameLayout s (s.setIb a v) := by
  refine ⟨rfl, fun b => ?_, fun b => ?_, fun b => ?_, rfl, rfl⟩ <;> rw [ibs_setIb] <;> split <;> simp_all

theorem countIn (s : Reader) (a : IbPtr) : SameLayout s (s.countIn a) := setIb rfl rfl rfl

theorem advance (s : Reader) (a : IbPtr) (n : Nat) : SameLayout s (s.advance a n) := setIb rfl rfl rfl

end SameLayout

theorem offset_countIn : ((s.countIn a).ibs b).offset = (s.ibs b).offset := by
  rw [countIn, ibs_setIb]
  split <;> simp_all

theorem offset_advance (n : Nat) :
    ((s.advance a n).ibs b).offset = if b = a then ((s.ibs a).offset + n) % 65536 else (s.ibs b).offset := by
  rw [advance, ibs_setIb]
  split <;> rfl

theorem packetCount_countIn : ((s.countIn a).ibs b).packetCount =
    if b = a then ((s.ibs a).packetCount + 1) % 65536 else (s.ibs b).packetCount := by
  rw [countIn, ibs_setIb]
  split <;> rfl

theorem packetCount_advance (n : Nat) : ((s.advance a n).ibs b).packetCount = (s.ibs b).packetCount := by
  rw [advance, ibs_setIb]
  split <;> simp_all

/-! ## Accepting and giving up -/

section Accept

variable (s : Reader) (ib1 : IbPtr) (h : Header) (d : Located)

theorem accept_sameLayout : SameLayout s (s.accept ib1 h d).1 := by
  have h₀ : SameLayout s (s.enqueue (newPacket ib1 h d)) := ⟨rfl, fun _ => rfl, fun _ => rfl, fun _ => rfl, rfl, rfl⟩
  have hi : ∀ (t : Reader) (p : Option IbPtr), SameLayout t { t with inBuf := p } := fun _ _ =>
    ⟨rfl, fun _ => rfl, fun _ => rfl, fun _ => rfl, rfl, rfl⟩
  have h₁ := h₀.trans (.countIn _ ib1)
  simp only [accept]
  cases d.ib2 with
  | none => exact (h₁.trans (hi _ _)).trans (.advance ..)
  | some ib2 => exact ((h₁.trans (.countIn _ ib2)).trans (hi _ _)).trans (.advance ..)

@[simp] theorem accept_queue : (s.accept ib1 h d).1.queue = s.queue ++ [newPacket ib1 h d] := by
  simp only [accept]
  cases d.ib2 <;> rfl

@[simp] theorem accept_queueSize : (s.accept ib1 h d).1.queueSize = (s.queueSize + 1) % 65536 := by
  simp only [accept]
  cases d.ib2 <;> rfl

@[simp] theorem accept_inBuf : (s.accept ib1 h d).1.inBuf = some (d.ib2.getD ib1) := by
  simp only [accept]
  cases d.ib2 <;> rfl

theorem accept_offset : ((s.accept ib1 h d).1.ibs b).offset =
    if b = d.ib2.getD ib1 then ((s.ibs (d.ib2.getD ib1)).offset + (d.consumed + d.oddSize)) % 65536
    else (s.ibs b).offset := by
  simp only [accept]
  rw [offset_advance]
  cases d.ib2 with
  | none =>
    simp only [Option.getD_none, offset_countIn]
    rfl
  | some ib2 =>
    simp only [Option.getD_some, offset_countIn]
    rfl

/-- The packet is counted into its one or two buffers. -/
theorem accept_packetCount (hne : d.ib2 ≠ some ib1) : ((s.accept ib1 h d).1.ibs b).packetCount =
    if b = ib1 ∨ d.ib2 = some b then ((s.ibs b).packetCount + 1) % 65536 else (s.ibs b).packetCount := by
  simp only [accept]
  rw [packetCount_advance]
  cases hd : d.ib2 with
  | none =>
    simp only [packetCount_countIn, reduceCtorEq, or_false]
    split
    · subst b
      rfl
    · rfl
  | some ib2 =>
    have hne' : ib1 ≠ ib2 := fun he => hne (by rw [hd, he])
    simp only [packetCount_countIn, Option.some_inj]
    by_cases h₁ : b = ib1
    · subst h₁
      rw [if_neg hne', if_pos rfl, if_pos (.inl rfl)]
      rfl
    · by_cases h₂ : b = ib2
      · subst h₂
        rw [if_pos rfl, if_neg h₁, if_pos (.inr rfl)]
        rfl
      · rw [if_neg h₂, if_neg h₁, if_neg (by rintro (h | h); exacts [h₁ h, h₂ h.symm])]
        rfl

theorem accept_ib1 : (s.accept ib1 h d).2 =
    if ((s.accept ib1 h d).1.ibs (d.ib2.getD ib1)).offset = bufferSize then s.next (d.ib2.getD ib1)
    else some (d.ib2.getD ib1) := by
  have hn : (s.accept ib1 h d).1.next (d.ib2.getD ib1) = s.next (d.ib2.getD ib1) :=
    (accept_sameLayout s ib1 h d).next _
  rw [← hn]
  rfl

end Accept

/-! ## Giving up -/

theorem skip_sameLayout (s : Reader) (a : IbPtr) : SameLayout s (s.skip a) := by
  unfold skip
  split
  · exact .advance ..
  · split
    · exact ⟨rfl, fun _ => rfl, fun _ => rfl, fun _ => rfl, rfl, rfl⟩
    · exact .refl s

@[simp] theorem skip_queue (s : Reader) (a : IbPtr) : (s.skip a).queue = s.queue := by
  unfold skip
  split
  · rfl
  · split <;> rfl

theorem skip_of_lt (h : (s.ibs a).offset < s.bytes a) : s.skip a = s.advance a 2 := if_pos h

theorem skip_ibs_of_ge (h : s.bytes a ≤ (s.ibs a).offset) : (s.skip a).ibs = s.ibs := by
  unfold skip
  rw [if_neg (by omega)]
  split <;> rfl

/-- An offset stays, or goes on by two. -/
theorem offset_skip (hb : s.bytes b ≤ bufferSize) (a : IbPtr) : ((s.skip b).ibs a).offset = (s.ibs a).offset ∨
    (s.ibs a).offset + 2 = ((s.skip b).ibs a).offset ∧ (s.ibs a).offset < bufferSize := by
  by_cases hlt : (s.ibs b).offset < s.bytes b
  · rw [skip_of_lt hlt, offset_advance]
    split
    · subst a
      simp only [bufferSize] at *
      exact .inr (by omega)
    · exact .inl rfl
  · rw [skip_ibs_of_ge (Nat.not_lt.1 hlt)]
    exact .inl rfl

theorem skip_packetCount : ((s.skip a).ibs b).packetCount = (s.ibs b).packetCount := by
  unfold skip
  split
  · exact packetCount_advance 2
  · split <;> rfl

/-- The parser's buffer stays, or is the one after `a`. -/
theorem skip_inBuf (s : Reader) (a : IbPtr) :
    (s.skip a).inBuf = s.inBuf ∨ (s.skip a).inBuf = s.next a ∧ (s.next a).isSome ∧ s.bytes a ≤ (s.ibs a).offset := by
  unfold skip
  split
  · exact .inl rfl
  · split
    · rename_i h₁ h₂
      exact .inr ⟨rfl, h₂.2, by omega⟩
    · exact .inl rfl

theorem badData_cases (s : Reader) (ib1 : IbPtr) (ib2 : Option IbPtr) :
    s.badData ib1 ib2 = .done (s.skip (ib2.getD ib1)) ∨
      s.badData ib1 ib2 = .again (s.skip (ib2.getD ib1), some (ib2.getD ib1)) := by
  simp only [badData]
  split
  · exact .inl rfl
  · exact .inr rfl

theorem badData_again {ib2 : Option IbPtr} (h : s.bytes (ib2.getD ib1) ≤ bufferSize) :
    s.badData ib1 ib2 = .again (s.skip (ib2.getD ib1), some (ib2.getD ib1)) := by
  simp only [badData]
  rw [if_neg]
  rw [(skip_sameLayout s _).bytes_eq]
  omega

end AmiPiBorg.Reader
