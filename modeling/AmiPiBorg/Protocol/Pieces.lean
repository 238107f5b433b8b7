import AmiPiBorg.Lib.Words
import AmiPiBorg.Protocol.Buffer
import AmiPiBorg.Protocol.Checksum
import AmiPiBorg.Protocol.Packet

/-!
# Word sequences under the checksum

A sequence of words is added up in pieces of even length, each by a call of `APB_AddToChecksum`, as `APB_ProcessBuffer`
does with the header and the two halves of the data. The total depends on the words alone (`addPieces_eq`), so what is
accepted does, too (`accepts_iff`).
-/

set_option autoImplicit false

namespace AmiPiBorg

open ProgLib

/-- What one call of `APB_AddToChecksum` is handed: an even number of bytes that fits its `UWORD`. -/
structure Piece where
  data : Mem
  length : Nat
  even : length % 2 = 0
  fits : length < 65536

/-- The words of a piece. -/
def Piece.words (p : Piece) : List UInt16 := p.data.words 0 (p.length / 2)

/-- The words of the pieces, in order. -/
def pieceWords (ps : List Piece) : List UInt16 := ps.flatMap Piece.words

/-- One call of `APB_AddToChecksum` after the other. -/
def addPieces : UInt32 → List Piece → Option UInt32
  | sum, [] => some sum
  | sum, p :: ps => (addToChecksum sum p.data p.length).bind fun sum => addPieces sum ps

/-- The pieces pass the check that `APB_ProcessBuffer` makes. -/
def Accepts (ps : List Piece) : Prop := ∃ sum, addPieces 0 ps = some sum ∧ completeChecksum sum = some 0xFFFF

/-- The words of a packet and a full buffer. -/
abbrev maxWords : Nat := (sizeofPacket + bufferSize + 1) / 2

@[simp] theorem pieceWords_nil : pieceWords [] = [] := rfl

@[simp] theorem pieceWords_cons (p : Piece) (ps : List Piece) : pieceWords (p :: ps) = p.words ++ pieceWords ps := rfl

/-- **The total depends on the words alone**, not on how they are split. -/
theorem addPieces_eq (sum : UInt32) (ps : List Piece) :
    addPieces sum ps = some (sum + UInt32.ofNat (wordTotal (pieceWords ps))) := by
  induction ps generalizing sum with
  | nil => simp [addPieces]
  | cons p ps ih =>
    rw [addPieces, addToChecksum_even p.even p.fits, Option.bind_some, ih, Mem.wordSum_eq, pieceWords_cons,
      wordTotal_append, UInt32.ofNat_add, UInt32.add_assoc]
    rfl

/-- As long as the sum fits in 32 bits, a sequence is accepted exactly when its total is `1` modulo `65535`. -/
theorem accepts_iff {ps : List Piece} (h : (pieceWords ps).length ≤ maxWords) :
    Accepts ps ↔ wordTotal (pieceWords ps) % 65535 = 1 := by
  have hle := wordTotal_le (pieceWords ps)
  simp only [maxWords, sizeofPacket, bufferSize] at h
  have hn : (0 + UInt32.ofNat (wordTotal (pieceWords ps))).toNat = wordTotal (pieceWords ps) := by
    rw [UInt32.zero_add, UInt32.toNat_ofNat', Nat.mod_eq_of_lt (by omega)]
  rw [← hn, ← completeChecksum_ok_iff]
  constructor
  · rintro ⟨sum, hs, hc⟩
    rw [addPieces_eq, Option.some_inj] at hs
    rwa [hs]
  · intro hc
    exact ⟨_, addPieces_eq 0 ps, hc⟩

/-- The checksum calculated over a memory that holds the words brings their total to `1` modulo `65535`. -/
theorem calculateChecksum_words {ws : List UInt16} {data : Mem} (hl : ws.length ≤ maxWords) (h0 : wordTotal ws ≠ 0)
    (hd : data.words 0 ws.length = ws) :
    ∃ c, calculateChecksum data (2 * ws.length) = some c ∧ (wordTotal ws + c.toNat) % 65535 = 1 := by
  simp only [maxWords, sizeofPacket, bufferSize] at hl
  have hw : data.wordSum 0 (2 * ws.length / 2) = wordTotal ws := by
    rw [Nat.mul_div_cancel_left _ (by omega), Mem.wordSum_eq, hd]
  have hpos : 0 < data.wordSum 0 (2 * ws.length / 2) := by
    rw [hw]
    exact Nat.pos_of_ne_zero h0
  have hc := calculateChecksum_closes (by omega) (by omega) hpos
  rwa [hw] at hc

/-- A sequence whose checksum word is filled in is accepted however it is split. -/
theorem accepts_of_store {ws : List UInt16} {k : Nat} {c : UInt16} (hl : ws.length ≤ maxWords) (hk : ws[k]? = some 0)
    (hc : (wordTotal ws + c.toNat) % 65535 = 1) {ps : List Piece} (hps : pieceWords ps = ws.set k c) : Accepts ps := by
  have hset : wordTotal (ws.set k c) = wordTotal ws + c.toNat := wordTotal_set c hk
  rw [accepts_iff (by rw [hps, List.length_set]; exact hl), hps, hset]
  exact hc

/-- **A replaced word is noticed**, but for the exchange of the two zeros. -/
theorem accepts_replaced {ps ps' : List Piece} {j : Nat} {w w' : UInt16} (hl : (pieceWords ps).length ≤ maxWords)
    (ha : Accepts ps) (hj : (pieceWords ps)[j]? = some w) (hne : w' ≠ w)
    (hps : pieceWords ps' = (pieceWords ps).set j w') :
    Accepts ps' ↔ w = 0 ∧ w' = 0xFFFF ∨ w = 0xFFFF ∧ w' = 0 := by
  have hsum := wordTotal_set w' hj
  rw [accepts_iff hl] at ha
  rw [accepts_iff (by rw [hps, List.length_set]; exact hl), hps, ← word_congr_iff hne]
  have := w.toNat_lt
  have := w'.toNat_lt
  omega

/-- **The checksum closes and detects.** Stored in the word that was zero, the calculated checksum makes the words pass
the check however they are split; the folding of any sum ends; and of the words that pass, none can be replaced without
the check failing, but for `0` and `0xFFFF` one for the other. -/
theorem checksum_closes_and_detects :
    (∀ (ws : List UInt16) (k : Nat) (data : Mem), ws.length ≤ maxWords → ws[k]? = some 0 → wordTotal ws ≠ 0 →
      data.words 0 ws.length = ws →
      ∃ c, calculateChecksum data (2 * ws.length) = some c ∧ ∀ ps, pieceWords ps = ws.set k c → Accepts ps) ∧
    (∀ sum, ∃ c, completeChecksum sum = some c) ∧
    ∀ (ps ps' : List Piece) (j : Nat) (w w' : UInt16), (pieceWords ps).length ≤ maxWords → Accepts ps →
      (pieceWords ps)[j]? = some w → w' ≠ w → pieceWords ps' = (pieceWords ps).set j w' →
      (Accepts ps' ↔ w = 0 ∧ w' = 0xFFFF ∨ w = 0xFFFF ∧ w' = 0) := by
  refine ⟨fun ws k data hl hk h0 hd => ?_, fun sum => ?_, fun ps ps' j w w' hl ha hj hne hps => ?_⟩
  · obtain ⟨c, hc, hm⟩ := calculateChecksum_words hl h0 hd
    exact ⟨c, hc, fun ps hps => accepts_of_store hl hk hm hps⟩
  · obtain ⟨c, hc, -⟩ := completeChecksum_eq sum
    exact ⟨c, hc⟩
  · exact accepts_replaced hl ha hj hne hps

/-- The words `1, 0` with the checksum in the second. -/
theorem checksum_closes_and_detects_pair :
    ∃ c, calculateChecksum (Mem.ofList [0, 1, 0, 0]) 4 = some c ∧ ∀ ps, pieceWords ps = [1, c] → Accepts ps :=
  checksum_closes_and_detects.1 [1, 0] 1 (Mem.ofList [0, 1, 0, 0]) (by decide) rfl (by decide) (by decide)

end AmiPiBorg
