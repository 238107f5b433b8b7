import Mathlib.Tactic

/-!
# End-around carry

Adding the carries out of a digit of base `b` back in at the bottom (`fold`) keeps a sum modulo `b - 1`, makes it
smaller as long as it does not fit, and never brings a positive sum to zero. So the digit that repeated folding ends
in is `reduced b s`: zero for zero, and otherwise the representative of `s` modulo `b - 1` between `1` and `b - 1`.
-/

set_option autoImplicit false

namespace ProgLib.EndAround

/-- One end-around carry in base `b`. -/
def fold (b s : Nat) : Nat := s % b + s / b

/-- The digit that folding ends in. -/
def reduced (b s : Nat) : Nat := if s = 0 then 0 else (s - 1) % (b - 1) + 1

variable {b s : Nat}

theorem fold_mod (hb : 2 ≤ b) : fold b s % (b - 1) = s % (b - 1) := by
  obtain ⟨c, rfl⟩ : ∃ c, b = c + 1 := ⟨b - 1, by omega⟩
  have h : s = fold (c + 1) s + c * (s / (c + 1)) := by
    have h₁ : (c + 1) * (s / (c + 1)) = c * (s / (c + 1)) + s / (c + 1) := by ring
    have h₂ := Nat.div_add_mod s (c + 1)
    simp only [fold]
    omega
  calc fold (c + 1) s % (c + 1 - 1) = (fold (c + 1) s + c * (s / (c + 1))) % c := by simp
    _ = s % c := by rw [← h]

theorem fold_pos (hs : 0 < s) : 0 < fold b s := by
  rcases Nat.eq_zero_or_pos (s % b) with h | h
  · have := Nat.div_add_mod s b
    refine Nat.add_pos_right _ (Nat.pos_of_ne_zero fun h0 => ?_)
    rw [h, h0] at this
    simp at this
    omega
  · exact Nat.add_pos_left h _

/-- A digit that agrees with `s` modulo `b - 1`, and is zero exactly when `s` is, is `reduced b s`. -/
theorem eq_reduced {t : Nat} (hb : 2 ≤ b) (ht : t < b) (hm : t % (b - 1) = s % (b - 1)) (h0 : t = 0 ↔ s = 0) :
    t = reduced b s := by
  obtain ⟨c, rfl⟩ : ∃ c, b = c + 1 := ⟨b - 1, by omega⟩
  simp only [Nat.add_sub_cancel] at hm
  simp only [reduced, Nat.add_sub_cancel]
  split
  · exact h0.2 ‹_›
  · rename_i hs
    have hs' : t ≠ 0 := fun h => hs (h0.1 h)
    have hpred : (t - 1) % c = (s - 1) % c := by
      have : (t - 1 + 1) % c = (s - 1 + 1) % c := by
        rw [Nat.sub_add_cancel (by omega), Nat.sub_add_cancel (by omega)]; exact hm
      exact (Nat.ModEq.add_right_cancel' 1 this : t - 1 ≡ s - 1 [MOD c])
    rw [← hpred, Nat.mod_eq_of_lt (by omega)]
    omega

/-- The digit is `1` exactly for the sums that are `1` modulo `b - 1`. -/
theorem reduced_eq_one_iff (hb : 3 ≤ b) : reduced b s = 1 ↔ s % (b - 1) = 1 := by
  obtain ⟨c, rfl⟩ : ∃ c, b = c + 2 := ⟨b - 2, by omega⟩
  simp only [reduced, show c + 2 - 1 = c + 1 by omega]
  split
  · rename_i h
    subst h
    simp
  · rename_i h
    obtain ⟨t, rfl⟩ : ∃ t, s = t + 1 := ⟨s - 1, by omega⟩
    simp only [Nat.add_sub_cancel, Nat.add_eq_right]
    constructor
    · intro ht
      rw [Nat.add_mod, ht, Nat.zero_add, Nat.mod_mod]
      exact Nat.mod_eq_of_lt (by omega)
    · intro ht
      have h₁ := Nat.mod_lt t (show 0 < c + 1 by omega)
      rw [Nat.add_mod, Nat.mod_eq_of_lt (show 1 < c + 1 by omega)] at ht
      by_cases hc : t % (c + 1) + 1 < c + 1
      · rw [Nat.mod_eq_of_lt hc] at ht
        omega
      · rw [show t % (c + 1) + 1 = c + 1 by omega, Nat.mod_self] at ht
        omega

end ProgLib.EndAround
