import Mathlib.Tactic

/-!
# Byte memories

A memory gives a byte at every offset. Ranges of it are read as lists (`slice`) and written from lists (`store`);
16-bit and 32-bit values are big-endian (`word`, `long`, with `be16` and `be32` the bytes that hold a value). `wordSum`
adds up consecutive words.
-/

set_option autoImplicit false

namespace ProgLib

/-- A byte at every offset. -/
abbrev Mem := Nat → UInt8

namespace Mem

/-- The `n` bytes from `off`. -/
def slice (m : Mem) (off n : Nat) : List UInt8 := (List.range n).map fun i => m (off + i)

/-- The bytes `bs` written from `off`. -/
def store (m : Mem) (off : Nat) (bs : List UInt8) : Mem :=
  fun i => if off ≤ i ∧ i < off + bs.length then bs.getD (i - off) 0 else m i

/-- The memory that starts with `bs`. -/
def ofList (bs : List UInt8) : Mem := fun i => bs.getD i 0

/-- The memory seen from `off`. -/
def from_ (m : Mem) (off : Nat) : Mem := fun i => m (off + i)

/-- The 16-bit value at `i`. -/
def word (m : Mem) (i : Nat) : UInt16 := UInt16.ofNat ((m i).toNat * 256 + (m (i + 1)).toNat)

/-- The 32-bit value at `i`. -/
def long (m : Mem) (i : Nat) : UInt32 :=
  UInt32.ofNat ((m i).toNat * 16777216 + (m (i + 1)).toNat * 65536 + (m (i + 2)).toNat * 256 + (m (i + 3)).toNat)

/-- The memory holds the bytes `bs` from `off`. -/
def Holds (m : Mem) (off : Nat) (bs : List UInt8) : Prop := ∀ i < bs.length, bs[i]? = some (m (off + i))

/-- The sum of the `n` words from `off`. -/
def wordSum (m : Mem) : Nat → Nat → Nat
  | _, 0 => 0
  | off, n + 1 => (word m off).toNat + wordSum m (off + 2) n

/-! ## Ranges -/

@[simp] theorem length_slice (m : Mem) (off n : Nat) : (m.slice off n).length = n := by simp [slice]

@[simp] theorem slice_zero (m : Mem) (off : Nat) : m.slice off 0 = [] := rfl

theorem getElem?_slice (m : Mem) (off n i : Nat) : (m.slice off n)[i]? = if i < n then some (m (off + i)) else none := by
  by_cases h : i < n
  · simp [slice, h]
  · simp [slice, h]

theorem slice_congr {m m' : Mem} {off off' n : Nat} (h : ∀ i < n, m (off + i) = m' (off' + i)) :
    m.slice off n = m'.slice off' n :=
  List.map_congr_left fun i hi => h i (List.mem_range.1 hi)

theorem eq_of_slice_eq {m m' : Mem} {off off' n i : Nat} (h : m.slice off n = m'.slice off' n) (hi : i < n) :
    m (off + i) = m' (off' + i) := by
  have hget : (m.slice off n)[i]? = (m'.slice off' n)[i]? := by rw [h]
  rw [getElem?_slice, getElem?_slice, if_pos hi, if_pos hi] at hget
  exact Option.some.inj hget

theorem slice_from_ (m : Mem) (off i n : Nat) : (m.from_ off).slice i n = m.slice (off + i) n :=
  slice_congr fun _ _ => congrArg m (Nat.add_assoc ..).symm

theorem slice_append (m : Mem) (off a b : Nat) : m.slice off (a + b) = m.slice off a ++ m.slice (off + a) b := by
  simp [slice, List.range_add, List.map_append, Function.comp_def, Nat.add_assoc]

/-- A range is the list that it agrees with. -/
theorem slice_eq {m : Mem} {off : Nat} {bs : List UInt8} (h : ∀ i < bs.length, bs[i]? = some (m (off + i))) :
    m.slice off bs.length = bs := by
  apply List.ext_getElem?
  intro i
  rw [getElem?_slice]
  by_cases hi : i < bs.length
  · rw [if_pos hi, h i hi]
  · rw [if_neg hi, List.getElem?_eq_none (by omega)]

theorem ofList_slice (m : Mem) (off : Nat) {n i : Nat} (h : i < n) : ofList (m.slice off n) i = m (off + i) := by
  simp only [ofList, List.getD_eq_getElem?_getD, getElem?_slice, if_pos h, Option.getD_some]

/-! ## Contents -/

theorem Holds.slice {m : Mem} {off : Nat} {bs : List UInt8} (h : m.Holds off bs) : m.slice off bs.length = bs :=
  slice_eq h

theorem Holds.ofList {m : Mem} {off i : Nat} {bs : List UInt8} (h : m.Holds off bs) (hi : i < bs.length) :
    m (off + i) = Mem.ofList bs i := by
  simp only [Mem.ofList, List.getD_eq_getElem?_getD, h i hi, Option.getD_some]

theorem holds_ofList (bs : List UInt8) : (ofList bs).Holds 0 bs := fun i hi => by simp [Mem.ofList, hi]

theorem holds_append {m : Mem} {off : Nat} {xs ys : List UInt8} :
    m.Holds off (xs ++ ys) ↔ m.Holds off xs ∧ m.Holds (off + xs.length) ys := by
  refine ⟨fun h => ⟨fun i hi => ?_, fun i hi => ?_⟩, fun ⟨h₁, h₂⟩ i hi => ?_⟩
  · rw [← h i (by simp; omega), List.getElem?_append_left hi]
  · rw [Nat.add_assoc, ← h (xs.length + i) (by simp; omega), List.getElem?_append_right (by omega),
      Nat.add_sub_cancel_left]
  · by_cases hx : i < xs.length
    · rw [List.getElem?_append_left hx, h₁ i hx]
    · have hy := h₂ (i - xs.length) (by simp at hi; omega)
      rw [Nat.add_assoc, Nat.add_sub_cancel' (by omega)] at hy
      rw [List.getElem?_append_right (by omega), hy]

/-- What comes behind `xs` in a list stands behind `xs` in memory. -/
theorem holds_of_prefix {xs ys l : List UInt8} (h : xs ++ ys <+: l) : (ofList l).Holds xs.length ys := by
  obtain ⟨zs, rfl⟩ := h
  have hl := holds_ofList (xs ++ ys ++ zs)
  rw [holds_append, holds_append, Nat.zero_add] at hl
  exact hl.1.2

/-! ## Writes -/

theorem store_of_lt {m : Mem} {off i : Nat} {bs : List UInt8} (h : i < off) : m.store off bs i = m i := by
  simp only [store]
  rw [if_neg (by omega)]

theorem store_of_ge {m : Mem} {off i : Nat} {bs : List UInt8} (h : off + bs.length ≤ i) : m.store off bs i = m i := by
  simp only [store]
  rw [if_neg (by omega)]

theorem store_from_ (m : Mem) (off i : Nat) (bs : List UInt8) (k : Nat) :
    (m.from_ off).store i bs k = m.store (off + i) bs (off + k) := by
  simp only [store, from_]
  refine if_ctx_congr (by omega) (fun h => ?_) fun _ => rfl
  rw [Nat.add_sub_add_left]

theorem store_at (m : Mem) (off : Nat) {i : Nat} {bs : List UInt8} (h : i < bs.length) :
    some (m.store off bs (off + i)) = bs[i]? := by
  simp [store, h]

theorem slice_store (m : Mem) (off : Nat) (bs : List UInt8) : (m.store off bs).slice off bs.length = bs :=
  slice_eq fun _ hi => (store_at m off hi).symm

/-! ## Words -/

theorem toNat_word (m : Mem) (i : Nat) : (word m i).toNat = (m i).toNat * 256 + (m (i + 1)).toNat := by
  have h₁ := (m i).toNat_lt
  have h₂ := (m (i + 1)).toNat_lt
  simp only [word, UInt16.toNat_ofNat']
  omega

theorem word_lt (m : Mem) (i : Nat) : (word m i).toNat < 65536 := (word m i).toNat_lt

theorem word_congr {m m' : Mem} {i j : Nat} (h₀ : m i = m' j) (h₁ : m (i + 1) = m' (j + 1)) : word m i = word m' j := by
  simp only [word, h₀, h₁]

theorem long_congr {m m' : Mem} {i j : Nat} (h : ∀ k < 4, m (i + k) = m' (j + k)) : long m i = long m' j := by
  have h₀ := h 0 (by omega)
  simp only [Nat.add_zero] at h₀
  simp only [long, h₀, h 1 (by omega), h 2 (by omega), h 3 (by omega)]

theorem wordSum_congr {m m' : Mem} {n : Nat} : ∀ {off off' : Nat}, (∀ i < 2 * n, m (off + i) = m' (off' + i)) →
    wordSum m off n = wordSum m' off' n := by
  induction n with
  | zero => intros; rfl
  | succ n ih =>
    intro off off' h
    have h₀ := h 0 (by omega)
    simp only [Nat.add_zero] at h₀
    simp only [wordSum]
    rw [word_congr h₀ (h 1 (by omega)), ih fun i hi => ?_]
    have := h (2 + i) (by omega)
    simpa [Nat.add_assoc] using this

theorem wordSum_add (m : Mem) (off a b : Nat) : wordSum m off (a + b) = wordSum m off a + wordSum m (off + 2 * a) b := by
  induction a generalizing off with
  | zero => simp [wordSum]
  | succ a ih =>
    rw [Nat.succ_add, wordSum, ih, wordSum, show off + 2 * (a + 1) = off + 2 + 2 * a by omega]
    exact (Nat.add_assoc _ _ _).symm

/-- Filling in a word that was zero adds it to the sum. -/
theorem wordSum_fill {m m' : Mem} {off n k : Nat} (hk : k < n) (h0 : word m (off + 2 * k) = 0)
    (h : ∀ i < 2 * n, i ≠ 2 * k → i ≠ 2 * k + 1 → m' (off + i) = m (off + i)) :
    wordSum m' off n = wordSum m off n + (word m' (off + 2 * k)).toNat := by
  obtain ⟨r, rfl⟩ : ∃ r, n = k + (r + 1) := ⟨n - k - 1, by omega⟩
  have h₁ : wordSum m' off k = wordSum m off k := wordSum_congr fun i hi => h i (by omega) (by omega) (by omega)
  have h₂ : wordSum m' (off + 2 * k + 2) r = wordSum m (off + 2 * k + 2) r := wordSum_congr fun i hi => by
    have := h (2 * k + 2 + i) (by omega) (by omega) (by omega)
    simpa [Nat.add_assoc] using this
  have h₃ : ∀ m : Mem, wordSum m (off + 2 * k) (r + 1) =
      (word m (off + 2 * k)).toNat + wordSum m (off + 2 * k + 2) r := fun _ => rfl
  rw [wordSum_add m', wordSum_add m, h₃, h₃, h₁, h₂, h0]
  show _ + (_ + _) = _ + (0 + _) + _
  omega

theorem wordSum_le (m : Mem) (off n : Nat) : wordSum m off n ≤ 65535 * n := by
  induction n generalizing off with
  | zero => exact Nat.le_refl _
  | succ n ih =>
    have h₁ := word_lt m off
    have h₂ := ih (off + 2)
    simp only [wordSum]
    omega

end Mem

/-! ## Big-endian values -/

/-- The two bytes of a 16-bit value. -/
def be16 (w : UInt16) : List UInt8 := [UInt8.ofNat (w.toNat / 256), UInt8.ofNat (w.toNat % 256)]

/-- The four bytes of a 32-bit value. -/
def be32 (w : UInt32) : List UInt8 :=
  [UInt8.ofNat (w.toNat / 16777216), UInt8.ofNat (w.toNat / 65536 % 256), UInt8.ofNat (w.toNat / 256 % 256),
    UInt8.ofNat (w.toNat % 256)]

@[simp] theorem length_be16 (w : UInt16) : (be16 w).length = 2 := rfl

@[simp] theorem length_be32 (w : UInt32) : (be32 w).length = 4 := by simp [be32]

/-- A memory that holds the bytes of a 16-bit value reads as that value. -/
theorem word_of_be16 {m : Mem} {i : Nat} {w : UInt16} (h₀ : m i = UInt8.ofNat (w.toNat / 256))
    (h₁ : m (i + 1) = UInt8.ofNat (w.toNat % 256)) : m.word i = w := by
  apply UInt16.toNat_inj.1
  have := w.toNat_lt
  rw [Mem.toNat_word, h₀, h₁]
  simp only [UInt8.toNat_ofNat']
  omega

theorem long_of_be32 {m : Mem} {i : Nat} {w : UInt32} (h₀ : m i = UInt8.ofNat (w.toNat / 16777216))
    (h₁ : m (i + 1) = UInt8.ofNat (w.toNat / 65536 % 256)) (h₂ : m (i + 2) = UInt8.ofNat (w.toNat / 256 % 256))
    (h₃ : m (i + 3) = UInt8.ofNat (w.toNat % 256)) : m.long i = w := by
  apply UInt32.toNat_inj.1
  have := w.toNat_lt
  simp only [Mem.long, h₀, h₁, h₂, h₃, UInt32.toNat_ofNat', UInt8.toNat_ofNat']
  omega

/-- The bytes of the 16-bit value at `i` are those at `i`. -/
theorem be16_word (m : Mem) (i : Nat) : be16 (m.word i) = [m i, m (i + 1)] := by
  have h₀ := (m i).toNat_lt
  have h₁ := (m (i + 1)).toNat_lt
  simp only [be16, Mem.toNat_word, List.cons.injEq, and_true, ← UInt8.toNat_inj, UInt8.toNat_ofNat']
  omega

theorem be32_long (m : Mem) (i : Nat) : be32 (m.long i) = [m i, m (i + 1), m (i + 2), m (i + 3)] := by
  have h₀ := (m i).toNat_lt
  have h₁ := (m (i + 1)).toNat_lt
  have h₂ := (m (i + 2)).toNat_lt
  have h₃ := (m (i + 3)).toNat_lt
  simp only [be32, Mem.long, UInt32.toNat_ofNat', List.cons.injEq, and_true, ← UInt8.toNat_inj, UInt8.toNat_ofNat']
  omega

/-! ### Stored values -/

namespace Mem

theorem word_store (m : Mem) (off : Nat) (w : UInt16) : (m.store off (be16 w)).word off = w :=
  word_of_be16 (by simp [store, be16]) (by simp [store, be16])

theorem word_store_of_disjoint {m : Mem} {off i : Nat} {bs : List UInt8} (h : i + 2 ≤ off ∨ off + bs.length ≤ i) :
    (m.store off bs).word i = m.word i := by
  apply word_congr
  · rcases h with h | h
    · exact store_of_lt (by omega)
    · exact store_of_ge (by omega)
  · rcases h with h | h
    · exact store_of_lt (by omega)
    · exact store_of_ge (by omega)

theorem long_store (m : Mem) (off : Nat) (w : UInt32) : (m.store off (be32 w)).long off = w :=
  long_of_be32 (by simp [store, be32]) (by simp [store, be32]) (by simp [store, be32]) (by simp [store, be32])

theorem long_store_of_disjoint {m : Mem} {off i : Nat} {bs : List UInt8} (h : i + 4 ≤ off ∨ off + bs.length ≤ i) :
    (m.store off bs).long i = m.long i := by
  apply long_congr
  intro k hk
  rcases h with h | h
  · exact store_of_lt (by omega)
  · exact store_of_ge (by omega)

end Mem

end ProgLib
