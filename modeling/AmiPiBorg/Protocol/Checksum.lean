import AmiPiBorg.Lib.Loop
import AmiPiBorg.Lib.Bytes
import AmiPiBorg.Lib.EndAround

/-!
# The packet checksum (`server/protocol.c`)

`addToChecksum` adds the words of a memory range to a sum, `completeChecksum` folds the sum to 16 bits and negates it,
`calculateChecksum` does both. The range's length is an unsigned 16-bit value that goes down by two a turn:

- an even length adds up the words of the range (`addToChecksum_even`);
- an odd length never reaches zero (`addToChecksum_odd`), whatever the number of turns (`addToChecksum_loop_odd`);
- a sum completes to `0xFFFF` exactly when it is `1` modulo `65535` (`completeChecksum_ok_iff`), which storing the
  calculated checksum in a word that was zero brings about (`calculateChecksum_store`).
-/

set_option autoImplicit false

namespace AmiPiBorg

open ProgLib

/-! ## The loops -/

/-- A turn of the loop of `APB_AddToChecksum`: the sum, the place of `data`, and `length`, which wraps at 16 bits. -/
def checksumTurn (data : Mem) : UInt32 × Nat × Nat → Option (Turn (UInt32 × Nat × Nat) UInt32)
  | (sum, i, length) =>
    some (if length = 0 then .done sum
      else .again (sum + (data.word i).toUInt32, i + 2, (length + 65534) % 65536))

/-- `APB_AddToChecksum`. After `65536` turns `length` has been every value that it can be, so no result means that the
loop goes on for ever. -/
def addToChecksum (sum : UInt32) (data : Mem) (length : Nat) : Option UInt32 :=
  Loop.run (checksumTurn data) 65536 (sum, 0, length)

/-- A turn of the loop of `APB_CompleteChecksum`. -/
def foldTurn (sum : UInt32) : Option (Turn UInt32 UInt32) :=
  some (if sum >>> 16 = 0 then .done sum else .again ((sum &&& (0xffff : UInt32)) + (sum >>> 16)))

/-- `APB_CompleteChecksum`: two turns make any sum fit. -/
def completeChecksum (sum : UInt32) : Option UInt16 :=
  (Loop.run foldTurn 4 sum).map fun sum => (~~~sum + 1).toUInt16

/-- `APB_CalculateChecksum`. -/
def calculateChecksum (data : Mem) (length : Nat) : Option UInt16 :=
  (addToChecksum 0 data length).bind completeChecksum

/-! ## Adding up -/

theorem checksumTurn_again {data : Mem} {sum : UInt32} {i length : Nat} (h : length ≠ 0) :
    checksumTurn data (sum, i, length) =
      some (.again (sum + (data.word i).toUInt32, i + 2, (length + 65534) % 65536)) := by
  simp only [checksumTurn, if_neg h]

/-- The loop over `2 * n` bytes. -/
theorem addToChecksum_loop (data : Mem) : ∀ (n : Nat) (sum : UInt32) (i fuel : Nat), 2 * n < 65536 → n < fuel →
    Loop.run (checksumTurn data) fuel (sum, i, 2 * n) = some (sum + UInt32.ofNat (data.wordSum i n))
  | 0, sum, i, fuel, _, hf => by
    obtain ⟨f, rfl⟩ : ∃ f, fuel = f + 1 := ⟨fuel - 1, by omega⟩
    rw [Loop.run_done (r := sum) rfl]
    simp [Mem.wordSum]
  | n + 1, sum, i, fuel, hn, hf => by
    obtain ⟨f, rfl⟩ : ∃ f, fuel = f + 1 := ⟨fuel - 1, by omega⟩
    rw [Loop.run_again (checksumTurn_again (by omega)), show (2 * (n + 1) + 65534) % 65536 = 2 * n by omega,
      addToChecksum_loop data n _ _ f (by omega) (by omega), Mem.wordSum, UInt32.ofNat_add, UInt32.add_assoc,
      UInt32.ofNat_uInt16ToNat]

/-- **An even length adds up the words.** -/
theorem addToChecksum_even {data : Mem} {sum : UInt32} {length : Nat} (he : length % 2 = 0) (hl : length < 65536) :
    addToChecksum sum data length = some (sum + UInt32.ofNat (data.wordSum 0 (length / 2))) := by
  have := addToChecksum_loop data (length / 2) sum 0 65536 (by omega) (by omega)
  rwa [show 2 * (length / 2) = length by omega] at this

/-- **An odd length never ends the loop.** -/
theorem addToChecksum_loop_odd (data : Mem) (sum : UInt32) (i : Nat) {length : Nat} (ho : length % 2 = 1) (fuel : Nat) :
    Loop.run (checksumTurn data) fuel (sum, i, length) = none := by
  refine Loop.run_none_of_closed (fun s => s.2.2 % 2 = 1) ?_ ho
  rintro ⟨sum, i, length⟩ (h : length % 2 = 1)
  refine ⟨_, checksumTurn_again (by omega), ?_⟩
  show (length + 65534) % 65536 % 2 = 1
  omega

theorem addToChecksum_odd {data : Mem} {sum : UInt32} {length : Nat} (ho : length % 2 = 1) :
    addToChecksum sum data length = none := addToChecksum_loop_odd data sum 0 ho 65536

/-! ## Completing -/

theorem toNat_fold (sum : UInt32) :
    ((sum &&& (0xffff : UInt32)) + (sum >>> 16)).toNat = EndAround.fold 65536 sum.toNat := by
  have h := sum.toNat_lt
  have h₁ : (sum &&& (0xffff : UInt32)).toNat = sum.toNat % 65536 := by
    rw [UInt32.toNat_and]
    exact Nat.and_two_pow_sub_one_eq_mod _ 16
  have h₂ : (sum >>> 16).toNat = sum.toNat / 65536 := by
    rw [UInt32.toNat_shiftRight]
    exact Nat.shiftRight_eq_div_pow _ 16
  rw [UInt32.toNat_add, h₁, h₂, EndAround.fold, Nat.mod_eq_of_lt]
  omega

theorem shiftRight_eq_zero_iff (sum : UInt32) : sum >>> 16 = 0 ↔ sum.toNat < 65536 := by
  have h₂ : (sum >>> 16).toNat = sum.toNat / 65536 := by
    rw [UInt32.toNat_shiftRight]
    exact Nat.shiftRight_eq_div_pow _ 16
  rw [← UInt32.toNat_inj, h₂]
  show sum.toNat / 65536 = 0 ↔ _
  omega

/-- Folding ends in the reduced digit of the sum. -/
theorem foldTurn_run (sum : UInt32) :
    ∃ r, Loop.run foldTurn 4 sum = some r ∧ r.toNat = EndAround.reduced 65536 sum.toNat := by
  let I : Nat → UInt32 → Prop := fun k s => (k = 2 ∨ k = 1 ∧ s.toNat < 131071 ∨ k = 0 ∧ s.toNat < 65536) ∧
    s.toNat % 65535 = sum.toNat % 65535 ∧ (s.toNat = 0 ↔ sum.toNat = 0)
  refine Loop.run_total (k := 2) I _ ?_ ⟨.inl rfl, rfl, Iff.rfl⟩ (by omega)
  rintro k s ⟨hk, hm, h0⟩
  by_cases hs : s.toNat < 65536
  · exact .inl ⟨s, by simp only [foldTurn, if_pos ((shiftRight_eq_zero_iff s).2 hs)],
      EndAround.eq_reduced (by omega) hs hm h0⟩
  · have ha : foldTurn s = some (.again ((s &&& (0xffff : UInt32)) + (s >>> 16))) := by
      simp only [foldTurn, if_neg (fun h => hs ((shiftRight_eq_zero_iff s).1 h))]
    refine .inr ⟨_, k - 1, ha, by omega, ?_, ?_, ?_⟩
    · have hlt := s.toNat_lt
      rw [toNat_fold, EndAround.fold]
      omega
    · rw [toNat_fold, EndAround.fold_mod (by omega), ← hm]
    · have := EndAround.fold_pos (b := 65536) (show 0 < s.toNat by omega)
      rw [toNat_fold]
      omega

theorem toNat_complement (sum : UInt32) : (~~~sum + 1).toUInt16.toNat = (65536 - sum.toNat % 65536) % 65536 := by
  have h := sum.toNat_lt
  rw [← UInt32.neg_eq_not_add, UInt32.toNat_toUInt16, UInt32.toNat_neg]
  show (4294967296 - sum.toNat) % 4294967296 % 65536 = _
  omega

/-- **Completing a sum** negates its reduced digit. -/
theorem completeChecksum_eq (sum : UInt32) :
    ∃ c, completeChecksum sum = some c ∧ c.toNat = (65536 - EndAround.reduced 65536 sum.toNat % 65536) % 65536 := by
  obtain ⟨r, hr, hv⟩ := foldTurn_run sum
  exact ⟨(~~~r + 1).toUInt16, by simp only [completeChecksum, hr, Option.map_some], by rw [toNat_complement, hv]⟩

theorem reduced_lt (s : Nat) : EndAround.reduced 65536 s < 65536 := by
  simp only [EndAround.reduced]
  split <;> omega

/-- **A sum passes the check** exactly when it is `1` modulo `65535`. -/
theorem completeChecksum_ok_iff (sum : UInt32) : completeChecksum sum = some 0xFFFF ↔ sum.toNat % 65535 = 1 := by
  obtain ⟨c, hc, hv⟩ := completeChecksum_eq sum
  rw [← EndAround.reduced_eq_one_iff (b := 65536) (by omega), hc, Option.some_inj, ← UInt16.toNat_inj, hv]
  have := reduced_lt sum.toNat
  show (65536 - EndAround.reduced 65536 sum.toNat % 65536) % 65536 = 65535 ↔ _
  omega

/-- The checksum of a positive sum brings it to `1` modulo `65535`. -/
theorem completeChecksum_closes {sum : UInt32} {c : UInt16} (hpos : 0 < sum.toNat)
    (hc : completeChecksum sum = some c) : (sum.toNat + c.toNat) % 65535 = 1 := by
  obtain ⟨c', hc', hv⟩ := completeChecksum_eq sum
  cases hc'.symm.trans hc
  rw [hv, EndAround.reduced, if_neg (by omega)]
  omega

/-- **The calculated checksum closes the sum** of an even range whose words are not all zero. -/
theorem calculateChecksum_closes {data : Mem} {length : Nat} (he : length % 2 = 0) (hl : length < 65536)
    (hpos : 0 < data.wordSum 0 (length / 2)) :
    ∃ c, calculateChecksum data length = some c ∧ (data.wordSum 0 (length / 2) + c.toNat) % 65535 = 1 := by
  have hle := Mem.wordSum_le data 0 (length / 2)
  have hn : (0 + UInt32.ofNat (data.wordSum 0 (length / 2))).toNat = data.wordSum 0 (length / 2) := by
    rw [UInt32.zero_add, UInt32.toNat_ofNat', Nat.mod_eq_of_lt (by omega)]
  obtain ⟨c, hc, -⟩ := completeChecksum_eq (0 + UInt32.ofNat (data.wordSum 0 (length / 2)))
  refine ⟨c, by simp only [calculateChecksum, addToChecksum_even he hl, Option.bind_some, hc], ?_⟩
  have := completeChecksum_closes (by rw [hn]; exact hpos) hc
  rwa [hn] at this

/-- Only the bytes of the range matter. -/
theorem calculateChecksum_congr {data data' : Mem} {length : Nat} (he : length % 2 = 0) (hl : length < 65536)
    (h : ∀ i < length, data' i = data i) : calculateChecksum data' length = calculateChecksum data length := by
  have hsum : data'.wordSum 0 (length / 2) = data.wordSum 0 (length / 2) := Mem.wordSum_congr fun i hi => by
    rw [Nat.zero_add]
    exact h i (by omega)
  simp only [calculateChecksum, addToChecksum_even he hl, hsum]

/-- **Stored in a word that was zero**, the calculated checksum makes the range pass the check. -/
theorem calculateChecksum_store {data : Mem} {length k : Nat} (he : length % 2 = 0) (hl : length < 65536)
    (hk : 2 * k < length) (h0 : data.word (2 * k) = 0) (hpos : 0 < data.wordSum 0 (length / 2)) :
    ∃ c, calculateChecksum data length = some c ∧ ∀ data' : Mem, data'.word (2 * k) = c →
      (∀ i < length, i ≠ 2 * k → i ≠ 2 * k + 1 → data' i = data i) → calculateChecksum data' length = some 0xFFFF := by
  obtain ⟨c, hc, hm⟩ := calculateChecksum_closes he hl hpos
  refine ⟨c, hc, fun data' hw hsame => ?_⟩
  have hsum : data'.wordSum 0 (length / 2) = data.wordSum 0 (length / 2) + c.toNat := by
    have h0' : data.word (0 + 2 * k) = 0 := (congrArg data.word (Nat.zero_add (2 * k))).trans h0
    rw [Mem.wordSum_fill (m := data) (k := k) (by omega) h0', Nat.zero_add, hw]
    intro i hi h₁ h₂
    rw [Nat.zero_add]
    exact hsame i (by omega) h₁ h₂
  have hle := Mem.wordSum_le data' 0 (length / 2)
  rw [calculateChecksum, addToChecksum_even he hl, Option.bind_some, completeChecksum_ok_iff, UInt32.zero_add,
    UInt32.toNat_ofNat', Nat.mod_eq_of_lt (show _ < 2 ^ 32 by omega), hsum]
  exact hm

end AmiPiBorg
