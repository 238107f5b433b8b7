import AmiPiBorg.Lib.Bytes

/-!
# Lists of 16-bit words

`Mem.words` reads consecutive words of a memory, `wordTotal` adds up a list of them. Changing one word changes the
total by the difference (`wordTotal_set`), and two words agree modulo `65535` only if they are equal or are the two
zeros `0` and `65535` (`word_congr_iff`).
-/

set_option autoImplicit false

namespace ProgLib

/-- The `n` words from `off`. -/
def Mem.words (m : Mem) : Nat → Nat → List UInt16
  | _, 0 => []
  | off, n + 1 => m.word off :: m.words (off + 2) n

/-- The sum of the words. -/
def wordTotal (ws : List UInt16) : Nat := (ws.map UInt16.toNat).sum

@[simp] theorem wordTotal_nil : wordTotal [] = 0 := rfl

@[simp] theorem wordTotal_cons (w : UInt16) (ws : List UInt16) : wordTotal (w :: ws) = w.toNat + wordTotal ws := by
  simp [wordTotal]

@[simp] theorem wordTotal_append (ws vs : List UInt16) : wordTotal (ws ++ vs) = wordTotal ws + wordTotal vs := by
  simp [wordTotal]

theorem Mem.wordSum_eq (m : Mem) (off n : Nat) : m.wordSum off n = wordTotal (m.words off n) := by
  induction n generalizing off with
  | zero => rfl
  | succ n ih => simp [Mem.wordSum, Mem.words, ih]

theorem wordTotal_le (ws : List UInt16) : wordTotal ws ≤ 65535 * ws.length := by
  induction ws with
  | nil => simp
  | cons w ws ih =>
    have := w.toNat_lt
    simp only [wordTotal_cons, List.length_cons]
    omega

/-- **One word changed** changes the total by the difference. -/
theorem wordTotal_set {w : UInt16} (w' : UInt16) {ws : List UInt16} {j : Nat} (h : ws[j]? = some w) :
    wordTotal (ws.set j w') + w.toNat = wordTotal ws + w'.toNat := by
  induction ws generalizing j with
  | nil => simp at h
  | cons v ws ih =>
    cases j with
    | zero =>
      simp only [List.getElem?_cons_zero, Option.some_inj] at h
      subst h
      simp only [List.set_cons_zero, wordTotal_cons]
      omega
    | succ j =>
      have := ih (by simpa using h)
      simp only [List.set_cons_succ, wordTotal_cons]
      omega

/-- **The two zeros**: the only different words that agree modulo `65535`. -/
theorem word_congr_iff {w w' : UInt16} (h : w' ≠ w) :
    w'.toNat % 65535 = w.toNat % 65535 ↔ w = 0 ∧ w' = 0xFFFF ∨ w = 0xFFFF ∧ w' = 0 := by
  have h₁ := w.toNat_lt
  have h₂ := w'.toNat_lt
  have hne : w'.toNat ≠ w.toNat := fun he => h (UInt16.toNat_inj.1 he)
  have h0 : (0 : UInt16).toNat = 0 := rfl
  have hf : (0xFFFF : UInt16).toNat = 65535 := rfl
  simp only [← UInt16.toNat_inj, h0, hf]
  omega

end ProgLib
