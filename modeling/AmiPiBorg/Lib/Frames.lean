import Mathlib.Tactic

/-!
# Frames on a stream

Frames of known sizes are laid end to end on a stream. `completed size l n` are the frames of `l` whose last unit is
among the first `n`: a prefix of `l`, which grows with `n` and can be found piece by piece (`completed_append`).
-/

set_option autoImplicit false

namespace ProgLib

variable {α : Type} {size : α → Nat}

/-- The frames that the first `n` units hold completely. -/
def completed (size : α → Nat) : List α → Nat → List α
  | [], _ => []
  | a :: l, n => if size a ≤ n then a :: completed size l (n - size a) else []

theorem completed_cons_of_le {a : α} {l : List α} {n : Nat} (h : size a ≤ n) :
    completed size (a :: l) n = a :: completed size l (n - size a) := by simp only [completed, if_pos h]

theorem completed_cons_of_lt {a : α} {l : List α} {n : Nat} (h : n < size a) : completed size (a :: l) n = [] := by
  simp only [completed, if_neg (by omega : ¬size a ≤ n)]

theorem completed_prefix : ∀ (l : List α) (n : Nat), completed size l n <+: l
  | [], _ => List.prefix_refl _
  | a :: l, n => by
    by_cases h : size a ≤ n
    · rw [completed_cons_of_le h]
      exact List.cons_prefix_cons.2 ⟨rfl, completed_prefix l _⟩
    · rw [completed_cons_of_lt (by omega)]
      exact List.nil_prefix

/-- Frames that are complete can be set aside. -/
theorem completed_append : ∀ (l₁ l₂ : List α) {n : Nat}, (l₁.map size).sum ≤ n →
    completed size (l₁ ++ l₂) n = l₁ ++ completed size l₂ (n - (l₁.map size).sum)
  | [], _, _, _ => by simp
  | a :: l₁, l₂, n, h => by
    simp only [List.map_cons, List.sum_cons] at h
    rw [List.cons_append, completed_cons_of_le (by omega), completed_append l₁ l₂ (by omega), List.map_cons,
      List.sum_cons, Nat.sub_add_eq, List.cons_append]

/-- A last frame that is not complete makes no difference. -/
theorem completed_concat_of_lt {a : α} : ∀ (l : List α) {n : Nat}, n < (l.map size).sum + size a →
    completed size (l ++ [a]) n = completed size l n
  | [], n, h => completed_cons_of_lt (by simpa using h)
  | b :: l, n, h => by
    rw [List.map_cons, List.sum_cons] at h
    by_cases hb : size b ≤ n
    · rw [List.cons_append, completed_cons_of_le hb, completed_cons_of_le hb, completed_concat_of_lt l (by omega)]
    · rw [List.cons_append, completed_cons_of_lt (by omega), completed_cons_of_lt (by omega)]

/-- Frames can be renamed. -/
theorem completed_map {β : Type} (f : β → α) : ∀ (l : List β) (n : Nat),
    completed size (l.map f) n = (completed (fun b => size (f b)) l n).map f
  | [], _ => rfl
  | b :: l, n => by
    by_cases h : size (f b) ≤ n
    · simp only [List.map_cons, completed, if_pos h, completed_map f l]
    · simp only [List.map_cons, completed, if_neg h, List.map_nil]

end ProgLib
