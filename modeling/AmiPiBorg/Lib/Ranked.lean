import Mathlib.Tactic

/-!
# Lists in descending order of a key

`enqueue` puts a record behind those of the same or a higher key, and keeps the list in descending order
(`Ranked.enqueue`). The first record of a key is then the one that was enqueued first (`find?_enqueue`).
Changing the first record that meets a condition changes what that condition finds, and nothing else
(`find?_modify_self`, `find?_modify_other`).
-/

set_option autoImplicit false

namespace ProgLib

variable {α κ : Type}

section Order

variable [LinearOrder κ] {key : α → κ} {a : α} {l : List α}

/-- The record `a` behind those of the same or a higher key. -/
def enqueue (key : α → κ) : List α → α → List α
  | [], a => [a]
  | b :: l, a => if key b < key a then a :: b :: l else b :: enqueue key l a

/-- The keys go down. -/
def Ranked (key : α → κ) (l : List α) : Prop := l.Pairwise fun b c => key c ≤ key b

theorem perm_enqueue : (enqueue key l a).Perm (a :: l) := by
  induction l with
  | nil => simp [enqueue]
  | cons b l ih =>
    simp only [enqueue]
    split
    · exact .refl _
    · exact (ih.cons b).trans (.swap a b l)

theorem mem_enqueue {b : α} : b ∈ enqueue key l a ↔ b = a ∨ b ∈ l := by
  rw [perm_enqueue.mem_iff, List.mem_cons]

theorem Ranked.enqueue (h : Ranked key l) (a : α) : Ranked key (enqueue key l a) := by
  induction l with
  | nil => exact List.pairwise_singleton _ _
  | cons b l ih =>
    obtain ⟨hb, hl⟩ := List.pairwise_cons.1 h
    simp only [ProgLib.enqueue]
    split
    · next hlt =>
      refine List.pairwise_cons.2 ⟨fun c hc => ?_, h⟩
      rcases List.mem_cons.1 hc with rfl | hc
      · exact hlt.le
      · exact (hb c hc).trans hlt.le
    · next hlt =>
      refine List.pairwise_cons.2 ⟨fun c hc => ?_, ih hl⟩
      rcases mem_enqueue.1 hc with rfl | hc
      · exact not_lt.1 hlt
      · exact hb c hc

/-- **First in, first found**: the first record of a key stays the first one. -/
theorem find?_enqueue (h : Ranked key l) (k : κ) :
    (enqueue key l a).find? (fun b => key b = k) =
      (l.find? fun b => key b = k).or (if key a = k then some a else none) := by
  induction l with
  | nil =>
    simp only [enqueue, List.find?_nil, Option.none_or]
    split <;> simp [*]
  | cons b l ih =>
    obtain ⟨hb, hl⟩ := List.pairwise_cons.1 h
    simp only [enqueue]
    split
    · next hlt =>
      by_cases ha : key a = k
      · have hnone : (b :: l).find? (fun b => key b = k) = none := by
          rw [List.find?_eq_none]
          intro c hc
          have hle : key c ≤ key b := by
            rcases List.mem_cons.1 hc with rfl | hc
            · exact le_rfl
            · exact hb c hc
          simpa [← ha] using (hle.trans_lt hlt).ne
        rw [hnone, List.find?_cons_of_pos (by simpa using ha), Option.none_or, if_pos ha]
      · rw [List.find?_cons_of_neg (by simpa using ha), if_neg ha, Option.or_none]
    · by_cases hk : key b = k
      · rw [List.find?_cons_of_pos (by simpa using hk), List.find?_cons_of_pos (by simpa using hk), Option.some_or]
      · rw [List.find?_cons_of_neg (by simpa using hk), List.find?_cons_of_neg (by simpa using hk), ih hl]

theorem Ranked.congr {l' : List α} (h : Ranked key l) (hk : l'.map key = l.map key) : Ranked key l' := by
  have hm : ∀ l : List α, Ranked key l ↔ (l.map key).Pairwise fun b c => c ≤ b := by
    intro l
    rw [List.pairwise_map]
    exact Iff.rfl
  rw [hm, hk, ← hm]
  exact h

end Order

/-! ## Changing the first record that is found -/

variable {p q : α → Bool} {f : α → α} {l : List α} {i : Nat}

theorem map_modify (key : α → κ) (hf : ∀ a, key (f a) = key a) (l : List α) (i : Nat) :
    (l.modify i f).map key = l.map key := by
  induction l generalizing i with
  | nil => simp
  | cons a l ih =>
    cases i with
    | zero => simp [hf]
    | succ i => simp [ih]

/-- The record found is changed. -/
theorem find?_modify_self (hf : ∀ a, p (f a) = p a) (hi : l.findIdx? p = some i) :
    (l.modify i f).find? p = (l.find? p).map f := by
  induction l generalizing i with
  | nil => cases hi
  | cons a l ih =>
    by_cases ha : p a
    · rw [List.findIdx?_cons, if_pos ha, Option.some_inj] at hi
      subst hi
      simp [ha, hf]
    · rw [List.findIdx?_cons, if_neg ha, Option.map_eq_some_iff] at hi
      obtain ⟨j, hj, rfl⟩ := hi
      simp [ha, ih hj]

/-- What is found by another condition stays as it was. -/
theorem find?_modify_other (hf : ∀ a, q (f a) = q a) (hpq : ∀ a, p a → q a = false) (hi : l.findIdx? p = some i) :
    (l.modify i f).find? q = l.find? q := by
  induction l generalizing i with
  | nil => cases hi
  | cons a l ih =>
    by_cases ha : p a
    · rw [List.findIdx?_cons, if_pos ha, Option.some_inj] at hi
      subst hi
      simp [hpq a ha, hf]
    · rw [List.findIdx?_cons, if_neg ha, Option.map_eq_some_iff] at hi
      obtain ⟨j, hj, rfl⟩ := hi
      rw [List.modify_succ_cons, List.find?_cons, List.find?_cons, ih hj]

end ProgLib
