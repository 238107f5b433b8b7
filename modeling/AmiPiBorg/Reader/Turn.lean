import AmiPiBorg.Reader.Append

/-!
# A turn of `APB_ProcessBuffer`

`turn_cases` says once what a turn can do: stop, give up a header (`badData` on one of the buffers that the header
lies in) or accept a packet. `Looked` and `Accepted` collect what the source has checked by then: a second buffer is
the next of a full one, and what is accepted has been received.
-/

set_option autoImplicit false

namespace AmiPiBorg.Reader

open ProgLib

variable {s : Reader} {al : Alloc} {ib1 : IbPtr} {h : Header} {d : Located}

/-- The header that was read may continue in the buffer `ib2`. -/
def Looked (s : Reader) (ib1 : IbPtr) (ib2 : Option IbPtr) : Prop :=
  ib2 = none ∧ (s.ibs ib1).offset + sizeofPacket ≤ s.bytes ib1 ∨
    ib2.isSome ∧ s.next ib1 = ib2 ∧ bufferSize ≤ s.bytes ib1

theorem readHeader_cases (hr : s.readHeader ib1 = some h) :
    h.bc = s.bytes ib1 - (s.ibs ib1).offset ∧
      (h.ib2 = none ∧ h.consumed = sizeofPacket ∧ sizeofPacket ≤ h.bc ∧
          h.p = (s.data ib1).from_ (s.ibs ib1).offset ∨
        ∃ ib2, h.ib2 = some ib2 ∧ s.next ib1 = some ib2 ∧ h.bc < sizeofPacket ∧ bufferSize ≤ s.bytes ib1 ∧
          h.consumed = sizeofPacket - h.bc ∧ h.consumed ≤ s.bytes ib2 ∧
          h.p = fun i => if i < h.bc then (s.data ib1).from_ (s.ibs ib1).offset i else s.data ib2 (i - h.bc)) := by
  simp only [readHeader] at hr
  split at hr
  · rename_i hlt
    split at hr
    · cases hr
    · rename_i hfull
      split at hr
      · cases hr
      · rename_i ib2 hn
        split at hr
        · cases hr
        · rename_i hge
          cases hr
          exact ⟨rfl, .inr ⟨ib2, rfl, hn, hlt, by omega, rfl, by simpa using hge, rfl⟩⟩
  · rename_i hge
    cases hr
    exact ⟨rfl, .inl ⟨rfl, rfl, by simpa using hge, rfl⟩⟩

theorem looked_of_readHeader (hr : s.readHeader ib1 = some h) : s.Looked ib1 h.ib2 := by
  obtain ⟨hbc, ⟨h₁, -, h₂, -⟩ | ⟨ib2, h₁, h₂, -, h₃, -⟩⟩ := readHeader_cases hr
  · refine .inl ⟨h₁, ?_⟩
    simp only [sizeofPacket] at *
    omega
  · exact .inr ⟨by rw [h₁]; rfl, by rw [h₁, h₂], h₃⟩

/-- A range of received bytes in the buffer of `ib1` or of `ib2`. -/
def Received (s : Reader) (ib1 : IbPtr) (ib2 : Option IbPtr) (data : Option Addr) (len : Nat) : Prop :=
  data = none ∧ len = 0 ∨ ∃ ib off, (ib = ib1 ∨ ib2 = some ib) ∧ data = some ((s.ibs ib).buf, off) ∧
    off + len ≤ s.bytes ib

/-- What is known of a packet that was found: it has been received, in one buffer or in two. -/
structure Found (s : Reader) (ib1 : IbPtr) (d : Located) : Prop where
  looked : s.Looked ib1 d.ib2
  pos : 0 < d.consumed + d.oddSize
  one : d.ib2 = none → sizeofPacket ≤ d.consumed + d.oddSize ∧
    (s.ibs ib1).offset + (d.consumed + d.oddSize) ≤ s.bytes ib1
  two : ∀ ib2, d.ib2 = some ib2 → d.consumed + d.oddSize ≤ s.bytes ib2
  data1 : s.Received ib1 d.ib2 d.data1 d.dataLen1
  data2 : s.Received ib1 d.ib2 d.data2 d.dataLen2

/-- The five layouts of a packet: no data; the header ends its buffer; the data is split; all in one buffer; the
header is split. -/
theorem locate_cases (hl : s.locate ib1 h = some d) :
    h.hdr.length.toNat = 0 ∧ d = ⟨h.ib2, h.consumed, 0, none, 0, none, 0⟩ ∨
    h.hdr.length.toNat ≠ 0 ∧
      ((h.ib2 = none ∧ h.bc = sizeofPacket ∧ s.bytes ib1 = bufferSize ∧ ∃ ib2, s.next ib1 = some ib2 ∧
          h.hdr.length.toNat + h.oddSize ≤ s.bytes ib2 ∧
          d = ⟨some ib2, h.hdr.length.toNat, h.oddSize, some ((s.ibs ib2).buf, 0), h.hdr.length.toNat, none, 0⟩) ∨
        (h.ib2 = none ∧ ¬(h.bc = sizeofPacket ∧ s.bytes ib1 = bufferSize) ∧
          h.bc - sizeofPacket < h.hdr.length.toNat + h.oddSize ∧ bufferSize ≤ s.bytes ib1 ∧
          ∃ ib2, s.next ib1 = some ib2 ∧ h.hdr.length.toNat - (h.bc - sizeofPacket) + h.oddSize ≤ s.bytes ib2 ∧
          d = ⟨some ib2, h.hdr.length.toNat - (h.bc - sizeofPacket), h.oddSize,
            some ((s.ibs ib1).buf, (s.ibs ib1).offset + sizeofPacket), h.bc - sizeofPacket,
            some ((s.ibs ib2).buf, 0), h.hdr.length.toNat - (h.bc - sizeofPacket)⟩) ∨
        (h.ib2 = none ∧ h.hdr.length.toNat + h.oddSize ≤ h.bc - sizeofPacket ∧
          d = ⟨none, h.consumed + h.hdr.length.toNat, h.oddSize,
            some ((s.ibs ib1).buf, (s.ibs ib1).offset + sizeofPacket), h.hdr.length.toNat, none, 0⟩) ∨
        ∃ ib2, h.ib2 = some ib2 ∧ h.hdr.length.toNat + h.oddSize + h.consumed ≤ s.bytes ib2 ∧
          d = ⟨some ib2, h.consumed + h.hdr.length.toNat, h.oddSize,
            some ((s.ibs ib2).buf, sizeofPacket - h.bc), h.hdr.length.toNat, none, 0⟩) := by
  simp only [locate] at hl
  split at hl
  · rename_i hlen
    cases hl
    exact .inl ⟨hlen, rfl⟩
  · rename_i hlen
    refine .inr ⟨hlen, ?_⟩
    cases hib : h.ib2 with
    | none =>
      simp only [hib] at hl
      split at hl
      · rename_i hend
        cases hn : s.next ib1 with
        | none =>
          simp only [hn] at hl
          cases hl
        | some ib2 =>
          simp only [hn] at hl
          split at hl
          · cases hl
          · rename_i hb
            cases hl
            exact .inl ⟨rfl, hend.1, hend.2, ib2, rfl, Nat.not_lt.1 hb, rfl⟩
      · rename_i hend
        split at hl
        · rename_i hsplit
          split at hl
          · cases hl
          · rename_i hfull
            cases hn : s.next ib1 with
            | none =>
              simp only [hn] at hl
              cases hl
            | some ib2 =>
              simp only [hn] at hl
              split at hl
              · cases hl
              · rename_i hb
                cases hl
                exact .inr (.inl ⟨rfl, hend, hsplit, Nat.not_lt.1 hfull, ib2, rfl, Nat.not_lt.1 hb, rfl⟩)
        · rename_i hone
          cases hl
          exact .inr (.inr (.inl ⟨rfl, Nat.not_lt.1 hone, rfl⟩))
    | some ib2 =>
      simp only [hib] at hl
      split at hl
      · cases hl
      · rename_i hb
        cases hl
        exact .inr (.inr (.inr ⟨ib2, rfl, Nat.not_lt.1 hb, rfl⟩))

theorem found_of_locate (hr : s.readHeader ib1 = some h) (hl : s.locate ib1 h = some d) : s.Found ib1 d := by
  have hlook := looked_of_readHeader hr
  obtain ⟨hbc, hcase⟩ := readHeader_cases hr
  have hone : h.ib2 = none → h.consumed = sizeofPacket ∧ sizeofPacket ≤ h.bc := fun hn => by
    obtain ⟨-, h₁, h₂, -⟩ | ⟨ib2, h₁, -⟩ := hcase
    · exact ⟨h₁, h₂⟩
    · cases hn.symm.trans h₁
  have htwo : ∀ ib2, h.ib2 = some ib2 → h.bc < sizeofPacket ∧ h.consumed = sizeofPacket - h.bc ∧
      h.consumed ≤ s.bytes ib2 := fun ib2 hs => by
    obtain ⟨h₁, -⟩ | ⟨ib2', h₁, -, h₂, -, h₃, h₄, -⟩ := hcase
    · cases h₁.symm.trans hs
    · cases h₁.symm.trans hs
      exact ⟨h₂, h₃, h₄⟩
  obtain ⟨-, rfl⟩ | ⟨hlen, ⟨h₁, h₂, h₃, ib2, hn, hb, rfl⟩ | ⟨h₁, h₂, h₃, h₄, ib2, hn, hb, rfl⟩ | ⟨h₁, h₂, rfl⟩ |
    ⟨ib2, h₁, hb, rfl⟩⟩ := locate_cases hl
  · refine ⟨hlook, ?_, fun hn => ?_, fun ib2 hs => (htwo ib2 hs).2.2, .inl ⟨rfl, rfl⟩, .inl ⟨rfl, rfl⟩⟩
    · cases hi : h.ib2 with
      | none =>
        have := hone hi
        simp only [sizeofPacket] at *
        omega
      | some ib2 =>
        have := htwo ib2 hi
        simp only
        omega
    · have := hone hn
      simp only [sizeofPacket] at *
      omega
  · refine ⟨.inr ⟨rfl, hn, h₃.ge⟩, by simp only; omega, fun he => (by cases he), ?_,
      .inr ⟨ib2, 0, .inr rfl, rfl, by simp only; omega⟩, .inl ⟨rfl, rfl⟩⟩
    rintro c ⟨⟩
    exact hb
  · refine ⟨.inr ⟨rfl, hn, h₄⟩, by simp only; omega, fun he => (by cases he), ?_, .inr ⟨ib1, _, .inl rfl, rfl, ?_⟩,
      .inr ⟨ib2, 0, .inr rfl, rfl, by simp only; omega⟩⟩
    · rintro c ⟨⟩
      exact hb
    · have := hone h₁
      simp only [sizeofPacket] at *
      omega
  · have := hone h₁
    refine ⟨h₁ ▸ hlook, ?_, fun _ => ?_, fun c he => (by cases he), .inr ⟨ib1, _, .inl rfl, rfl, ?_⟩, .inl ⟨rfl, rfl⟩⟩
    all_goals
      simp only [sizeofPacket] at *
      omega
  · have := htwo ib2 h₁
    refine ⟨h₁ ▸ hlook, by simp only; omega, fun he => (by cases he), ?_, .inr ⟨ib2, _, .inr rfl, rfl, ?_⟩,
      .inl ⟨rfl, rfl⟩⟩
    · rintro c ⟨⟩
      simp only
      omega
    · simp only [sizeofPacket] at *
      omega

/-- What the parser needs to know of the lengths: they add up, and only the last range may be odd. -/
structure Lengths (h : Header) (d : Located) : Prop where
  sum : d.dataLen1 + d.dataLen2 = h.hdr.length.toNat
  odd : d.oddSize = if h.hdr.length.toNat = 0 then 0 else h.oddSize
  first : d.dataLen1 = 0 → h.hdr.length.toNat = 0
  even : 0 < d.dataLen2 → d.dataLen1 % 2 = 0
  consumed : (d.consumed + d.oddSize) % 2 = (h.hdr.length.toNat + d.oddSize) % 2

/-- From an even offset. -/
theorem lengths_of_locate (hr : s.readHeader ib1 = some h) (hl : s.locate ib1 h = some d)
    (hoff : (s.ibs ib1).offset % 2 = 0) (hle : (s.ibs ib1).offset ≤ s.bytes ib1) (hB : s.bytes ib1 ≤ bufferSize) :
    Lengths h d := by
  obtain ⟨hbc, hcase⟩ := readHeader_cases hr
  have hc : h.consumed % 2 = 0 := by
    obtain ⟨-, h₁, -⟩ | ⟨ib2, -, -, h₁, h₂, h₃, -⟩ := hcase <;> simp only [sizeofPacket, bufferSize] at * <;> omega
  have hb : h.ib2 = none → sizeofPacket ≤ h.bc := fun hn => by
    obtain ⟨-, -, h₁, -⟩ | ⟨ib2, h₁, -⟩ := hcase
    · exact h₁
    · cases hn.symm.trans h₁
  obtain ⟨hlen, rfl⟩ | ⟨hlen, ⟨h₁, h₂, h₃, ib2, hn, -, rfl⟩ | ⟨h₁, h₂, h₃, h₄, ib2, hn, -, rfl⟩ | ⟨h₁, -, rfl⟩ |
    ⟨ib2, -, -, rfl⟩⟩ := locate_cases hl
  · exact ⟨hlen.symm, (if_pos hlen).symm, fun _ => hlen, fun h0 => absurd h0 (lt_irrefl 0), by simp only; omega⟩
  · exact ⟨rfl, (if_neg hlen).symm, id, fun h0 => absurd h0 (lt_irrefl 0), rfl⟩
  · have := hb h₁
    refine ⟨?_, (if_neg hlen).symm, ?_, fun _ => ?_, ?_⟩
    all_goals
      have hodd : h.oddSize ≤ 1 := by simp only [Header.oddSize]; split <;> omega
      simp only [sizeofPacket, bufferSize] at *
      omega
  · refine ⟨rfl, (if_neg hlen).symm, id, fun h0 => absurd h0 (lt_irrefl 0), by simp only; omega⟩
  · refine ⟨rfl, (if_neg hlen).symm, id, fun h0 => absurd h0 (lt_irrefl 0), by simp only; omega⟩

/-- **The checksum loop never ends exactly for an odd number of data bytes.** -/
theorem packetSum_eq_none_iff (hL : Lengths h d) (hlen : h.hdr.length.toNat ≤ bufferSize) :
    s.packetSum h d = none ↔ (h.hdr.length.toNat + d.oddSize) % 2 = 1 := by
  have hodd : d.oddSize ≤ 1 := by
    rw [hL.odd, Header.oddSize]
    split
    · omega
    · split <;> omega
  have hsum := hL.sum
  obtain ⟨sum, hs⟩ : ∃ sum, addToChecksum 0 h.p sizeofPacket = some sum :=
    ⟨_, addToChecksum_even (by decide) (by decide)⟩
  have hcomplete : ∀ sum, completeChecksum sum ≠ none := fun sum hn => by
    obtain ⟨c, hc, -⟩ := completeChecksum_eq sum
    cases hc.symm.trans hn
  simp only [bufferSize] at hlen
  have hadd : ∀ (sum : UInt32) (m : Mem) (n : Nat), n < 65536 →
      ((addToChecksum sum m n).bind completeChecksum = none ↔ n % 2 = 1) := fun sum m n hn => by
    rcases Nat.mod_two_eq_zero_or_one n with he | ho
    · rw [addToChecksum_even he hn, Option.bind_some]
      exact iff_of_false (hcomplete _) (by omega)
    · rw [addToChecksum_odd ho, Option.bind_none]
      exact iff_of_true rfl ho
  simp only [packetSum, hs, Option.bind_some]
  by_cases h₁ : 0 < d.dataLen1
  · rw [if_pos h₁]
    by_cases h₂ : 0 < d.dataLen2
    · have he := hL.even h₂
      rw [if_pos h₂, addToChecksum_even he (by omega), Option.bind_some, hadd _ _ _ (by omega)]
      omega
    · rw [if_neg h₂, hadd _ _ _ (by omega)]
      omega
  · have h0 := hL.first (by omega)
    have hd : d.oddSize = 0 := by rw [hL.odd, if_pos h0]
    rw [if_neg h₁, Option.bind_some]
    exact iff_of_false (hcomplete _) (by omega)

/-- A packet that passes all checks. -/
structure Accepted (al : Alloc) (s : Reader) (ib1 : IbPtr) (h : Header) (d : Located) : Prop where
  le : (s.ibs ib1).offset ≤ s.bytes ib1
  header : s.readHeader ib1 = some h
  locate : s.locate ib1 h = some d
  id : h.hdr.id = packetId
  length_le : h.hdr.length.toNat ≤ bufferSize
  sum : s.packetSum h d = some 0xFFFF
  alloc : al.inPacket s

theorem Accepted.found (ha : s.Accepted al ib1 h d) : s.Found ib1 d := found_of_locate ha.header ha.locate

/-- A header that is given up, after a look into `ib2`: it fails its checks, or its packet fails the checksum. -/
def GivenUp (s : Reader) (ib1 : IbPtr) (ib2 : Option IbPtr) : Prop :=
  (s.ibs ib1).offset ≤ s.bytes ib1 ∧ ∃ h, s.readHeader ib1 = some h ∧
    ((h.hdr.id ≠ packetId ∨ bufferSize < h.hdr.length.toNat) ∧ ib2 = h.ib2 ∨
      ¬(h.hdr.id ≠ packetId ∨ bufferSize < h.hdr.length.toNat) ∧ ∃ d c, s.locate ib1 h = some d ∧
        s.packetSum h d = some c ∧ c ≠ 0xFFFF ∧ ib2 = d.ib2)

theorem GivenUp.looked {ib2 : Option IbPtr} (hg : s.GivenUp ib1 ib2) : s.Looked ib1 ib2 := by
  obtain ⟨-, h, hr, ⟨-, rfl⟩ | ⟨-, d, c, hd, -, -, rfl⟩⟩ := hg
  · exact looked_of_readHeader hr
  · exact (found_of_locate hr hd).looked

/-- **What a turn can do.** -/
theorem turn_cases {t : Turn (Reader × Option IbPtr) Reader} (ht : turn al (s, some ib1) = some t) :
    t = .done s ∨ (∃ ib2, s.GivenUp ib1 ib2 ∧ t = s.badData ib1 ib2) ∨
      ∃ h d, s.Accepted al ib1 h d ∧ t = .again (s.accept ib1 h d) := by
  simp only [turn] at ht
  split at ht
  · cases ht
    exact .inl rfl
  · rename_i hle
    split at ht
    · cases ht
      exact .inl rfl
    · rename_i h hr
      split at ht
      · cases ht
        exact .inr (.inl ⟨h.ib2, ⟨by omega, h, hr, .inl ⟨by assumption, rfl⟩⟩, rfl⟩)
      · rename_i hid
        split at ht
        · cases ht
          exact .inl rfl
        · rename_i d hd
          obtain ⟨c, hc, rfl⟩ := Option.map_eq_some_iff.1 ht
          split
          · rename_i hcs
            exact .inr (.inl ⟨d.ib2, ⟨by omega, h, hr, .inr ⟨hid, d, c, hd, hc, hcs, rfl⟩⟩, rfl⟩)
          · rename_i hcs
            split
            · rename_i hip
              have hcs' : c = 0xFFFF := by simpa using hcs
              refine .inr (.inr ⟨h, d, ⟨by omega, hr, hd, ?_, ?_, by rw [hc, hcs'], hip⟩, rfl⟩)
              · simpa using fun h => hid (.inl h)
              · exact Nat.le_of_not_lt fun h => hid (.inr h)
            · exact .inl rfl

/-- A turn that hangs has found a packet whose checksum never ends. -/
theorem turn_none (ht : turn al (s, some ib1) = none) :
    ∃ h d, s.readHeader ib1 = some h ∧ s.locate ib1 h = some d ∧ h.hdr.id = packetId ∧
      h.hdr.length.toNat ≤ bufferSize ∧ (s.ibs ib1).offset ≤ s.bytes ib1 ∧ s.packetSum h d = none := by
  simp only [turn] at ht
  split at ht
  · cases ht
  · split at ht
    · cases ht
    · rename_i h hr
      split at ht
      · cases ht
      · split at ht
        · cases ht
        · rename_i hid _ d hd
          refine ⟨h, d, hr, hd, ?_, ?_, by omega, by simpa using ht⟩
          · simpa using fun h => hid (.inl h)
          · exact Nat.le_of_not_lt fun h => hid (.inr h)

end AmiPiBorg.Reader
