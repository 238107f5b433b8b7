import Mathlib.Tactic

/-!
# Numerals

`numeral b letA n` is `n` in base `b`, as bytes: the digits from ten on are letters, `letA` the first of them. It reads
back as `n` (`readBack_numeral`) and has no superfluous digit (`head?_numeral`). `field` pads a sign and a numeral on the
left to a width, with spaces in front of the sign or with zeros after it.
-/

set_option autoImplicit false

namespace ProgLib.Numerals

/-- The byte of a digit. -/
def digitByte (letA : UInt8) (d : Nat) : UInt8 :=
  if d < 10 then 48 + UInt8.ofNat d else letA + UInt8.ofNat (d - 10)

/-- The digit of a byte. -/
def byteDigit (letA c : UInt8) : Nat := if c.toNat < 58 then c.toNat - 48 else c.toNat - letA.toNat + 10

/-- The digits of a positive number, the last one first, and none of zero. -/
def digitBytes (b : Nat) (letA : UInt8) (n : Nat) : List UInt8 := (Nat.digits b n).reverse.map (digitByte letA)

/-- A number in base `b`. -/
def numeral (b : Nat) (letA : UInt8) (n : Nat) : List UInt8 := if n = 0 then [48] else digitBytes b letA n

/-- The number that a string of digits stands for, after those that stand for `v`. -/
def readFrom (b : Nat) (letA : UInt8) (v : Nat) (s : List UInt8) : Nat :=
  s.foldl (fun v c => v * b + byteDigit letA c) v

/-- The number that a string of digits stands for. -/
def readBack (b : Nat) (letA : UInt8) (s : List UInt8) : Nat := readFrom b letA 0 s

/-- A sign and a numeral, padded on the left to a width: with zeros after the sign, or with spaces in front of it. -/
def field (zero : Bool) (width : Nat) (sign digits : List UInt8) : List UInt8 :=
  let pad := width - (sign.length + digits.length)
  if zero then sign ++ List.replicate pad 48 ++ digits else List.replicate pad 32 ++ (sign ++ digits)

/-- A first letter that leaves room for the digits up to `35`. -/
def Letter (letA : UInt8) : Prop := 58 ≤ letA.toNat ∧ letA.toNat ≤ 230

variable {b n d : Nat} {letA : UInt8}

/-! ## Digits -/

theorem toNat_digitByte (hl : Letter letA) (hd : d < 36) :
    (digitByte letA d).toNat = if d < 10 then 48 + d else letA.toNat + (d - 10) := by
  have h48 : (48 : UInt8).toNat = 48 := rfl
  obtain ⟨-, hl⟩ := hl
  unfold digitByte
  split
  · rw [UInt8.toNat_add, UInt8.toNat_ofNat', h48]
    omega
  · rw [UInt8.toNat_add, UInt8.toNat_ofNat']
    omega

theorem byteDigit_digitByte (hl : Letter letA) (hd : d < 36) : byteDigit letA (digitByte letA d) = d := by
  have h := toNat_digitByte hl hd
  obtain ⟨hl, -⟩ := hl
  rw [byteDigit, h]
  split <;> split <;> omega

/-- `0` is the only digit written as `0`. -/
theorem digitByte_eq_iff (hl : Letter letA) (hd : d < 36) : digitByte letA d = 48 ↔ d = 0 := by
  have ht := toNat_digitByte hl hd
  have h48 : (48 : UInt8).toNat = 48 := rfl
  obtain ⟨hl, -⟩ := hl
  rw [← UInt8.toNat_inj, ht, h48]
  split <;> omega

/-! ## Numerals -/

theorem digits_lt (hb : 1 < b) (h36 : b ≤ 36) {n d : Nat} (h : d ∈ Nat.digits b n) : d < 36 :=
  (Nat.digits_lt_base hb h).trans_le h36

@[simp] theorem digitBytes_zero (b : Nat) (letA : UInt8) : digitBytes b letA 0 = [] := by simp [digitBytes]

/-- The last digit of a positive number, and those in front of it. -/
theorem digitBytes_succ (hb : 1 < b) (hn : n ≠ 0) :
    digitBytes b letA n = digitBytes b letA (n / b) ++ [digitByte letA (n % b)] := by
  simp [digitBytes, Nat.digits_eq_cons_digits_div hb hn]

/-- The bytes of a numeral are digits and letters. -/
theorem le_of_mem_numeral {c : UInt8} (hb : 1 < b) (h36 : b ≤ 36) (hl : Letter letA) (hc : c ∈ numeral b letA n) :
    48 ≤ c.toNat := by
  unfold numeral at hc
  split at hc
  · rw [List.mem_singleton.1 hc]
    decide
  · obtain ⟨d, hd, rfl⟩ := List.mem_map.1 hc
    have hlt := digits_lt hb h36 (List.mem_reverse.1 hd)
    have hle := hl.1
    rw [toNat_digitByte hl hlt]
    split <;> omega

theorem zero_notMem_numeral (hb : 1 < b) (h36 : b ≤ 36) (hl : Letter letA) (n : Nat) : 0 ∉ numeral b letA n := fun h =>
  absurd (le_of_mem_numeral hb h36 hl h) (by decide)

/-- **No superfluous digits**: a positive number does not begin with `0`. -/
theorem head?_numeral (hb : 1 < b) (h36 : b ≤ 36) (hl : Letter letA) (hn : n ≠ 0) :
    ∃ c s, numeral b letA n = c :: s ∧ c ≠ 48 := by
  have hne : Nat.digits b n ≠ [] := Nat.digits_ne_nil_iff_ne_zero.2 hn
  rw [numeral, if_neg hn, digitBytes, ← List.dropLast_concat_getLast hne, List.reverse_append]
  refine ⟨_, _, rfl, ?_⟩
  rw [ne_eq, digitByte_eq_iff hl (digits_lt hb h36 (List.getLast_mem hne))]
  exact Nat.getLast_digit_ne_zero b hn

theorem readFrom_append (v : Nat) (s t : List UInt8) :
    readFrom b letA v (s ++ t) = readFrom b letA (readFrom b letA v s) t := List.foldl_append

theorem readBack_digitBytes (hb : 1 < b) (h36 : b ≤ 36) (hl : Letter letA) (n : Nat) :
    readBack b letA (digitBytes b letA n) = n := by
  induction n using Nat.strong_induction_on with
  | _ n ih =>
    by_cases hn : n = 0
    · simp [hn, readBack, readFrom]
    · have hlt := Nat.mod_lt n (show 0 < b by omega)
      rw [digitBytes_succ hb hn, readBack, readFrom_append, ← readBack, ih (n / b) (Nat.div_lt_self (by omega) hb)]
      show n / b * b + byteDigit letA (digitByte letA (n % b)) = n
      rw [byteDigit_digitByte hl (by omega), Nat.mul_comm]
      exact Nat.div_add_mod n b

/-- **A numeral reads back** as its number. -/
theorem readBack_numeral (hb : 1 < b) (h36 : b ≤ 36) (hl : Letter letA) (n : Nat) :
    readBack b letA (numeral b letA n) = n := by
  unfold numeral
  split
  · next hn =>
    simp [hn, readBack, readFrom, byteDigit]
  · exact readBack_digitBytes hb h36 hl n

theorem length_digitBytes (b : Nat) (letA : UInt8) (n : Nat) :
    (digitBytes b letA n).length = (Nat.digits b n).length := by simp [digitBytes]

theorem length_numeral_le {k : Nat} (hb : 1 < b) (hk : 0 < k) (hn : n < b ^ k) : (numeral b letA n).length ≤ k := by
  unfold numeral
  split
  · exact hk
  · rw [length_digitBytes, Nat.digits_length_le_iff hb]
    exact hn

/-- A field is as wide as asked for, or as its contents. -/
theorem length_field (zero : Bool) (width : Nat) (sign digits : List UInt8) :
    (field zero width sign digits).length = max width (sign.length + digits.length) := by
  unfold field
  cases zero
  · simp
    omega
  · simp
    omega

end ProgLib.Numerals
