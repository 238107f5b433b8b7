import Mathlib.Tactic

/-!
# Loops with fuel

A loop is given by its body: one turn either goes round again from a new state or leaves with a result, and `none`
means that the turn itself never ends. `run body n` makes at most `n` turns.

* More fuel changes no result (`run_mono`), so the result of a loop is unique (`run_det`).
* Partial correctness: `run_inv`. Total correctness with a variant: `run_total`.
* A loop that keeps a set of states it never leaves runs for ever (`run_none_of_closed`); one that has a variant
  ends exactly when no turn it reaches hangs (`ends_iff`).
-/

set_option autoImplicit false

namespace ProgLib

/-- The end of one turn: another turn from `s`, or the loop is left with `r`. -/
inductive Turn (σ ρ : Type) where
  | again (s : σ)
  | done (r : ρ)

namespace Loop

variable {σ ρ : Type} {body : σ → Option (Turn σ ρ)}

/-- At most `n` turns of `body` from `s`. -/
def run (body : σ → Option (Turn σ ρ)) : Nat → σ → Option ρ
  | 0, _ => none
  | n + 1, s =>
    match body s with
    | none => none
    | some (.again s') => run body n s'
    | some (.done r) => some r

/-- The states at which a loop entered at `s` starts a turn. -/
inductive Reach (body : σ → Option (Turn σ ρ)) (s : σ) : σ → Prop
  | refl : Reach body s s
  | step {t u : σ} : Reach body s t → body t = some (.again u) → Reach body s u

theorem run_again {n : Nat} {s s' : σ} (h : body s = some (.again s')) : run body (n + 1) s = run body n s' := by
  simp only [run, h]

theorem run_done {n : Nat} {s : σ} {r : ρ} (h : body s = some (.done r)) : run body (n + 1) s = some r := by
  simp only [run, h]

theorem run_hang {n : Nat} {s : σ} (h : body s = none) : run body n s = none := by
  cases n with
  | zero => rfl
  | succ n => simp only [run, h]

/-- A run that gives a result makes a turn: it leaves at once, or goes round. -/
theorem run_some {n : Nat} {s : σ} {r : ρ} (h : run body n s = some r) :
    ∃ m, n = m + 1 ∧ (body s = some (.done r) ∨ ∃ s', body s = some (.again s') ∧ run body m s' = some r) := by
  cases n with
  | zero => cases h
  | succ m =>
    refine ⟨m, rfl, ?_⟩
    cases hb : body s with
    | none => rw [run_hang hb] at h; cases h
    | some t =>
      cases t with
      | again s' => exact .inr ⟨s', rfl, by rw [run_again hb] at h; exact h⟩
      | done r' => rw [run_done hb] at h; cases h; exact .inl rfl

/-- More fuel keeps the result. -/
theorem run_mono {n m : Nat} {s : σ} {r : ρ} (h : run body n s = some r) (hm : n ≤ m) : run body m s = some r := by
  induction n generalizing m s with
  | zero => cases h
  | succ n ih =>
    obtain ⟨k, rfl⟩ : ∃ k, m = k + 1 := ⟨m - 1, by omega⟩
    obtain ⟨_, hn, hd | ⟨s', ha, hr⟩⟩ := run_some h
    · exact run_done hd
    · rw [run_again ha]
      exact ih (by cases hn; exact hr) (by omega)

/-- The result does not depend on the fuel. -/
theorem run_det {n m : Nat} {s : σ} {r r' : ρ} (h : run body n s = some r) (h' : run body m s = some r') :
    r = r' := by
  have h₁ := run_mono h (Nat.le_max_left n m)
  have h₂ := run_mono h' (Nat.le_max_right n m)
  exact Option.some.inj (h₁.symm.trans h₂)

/-- **Partial correctness**: what every turn keeps holds at the exit. -/
theorem run_inv (I : σ → Prop) (Q : ρ → Prop) (hagain : ∀ s s', I s → body s = some (.again s') → I s')
    (hdone : ∀ s r, I s → body s = some (.done r) → Q r) :
    ∀ {n : Nat} {s : σ} {r : ρ}, I s → run body n s = some r → Q r
  | 0, _, _, _, h => by cases h
  | n + 1, s, r, hI, h => by
    obtain ⟨_, hn, hd | ⟨s', ha, hr⟩⟩ := run_some h
    · exact hdone s r hI hd
    · cases hn
      exact run_inv I Q hagain hdone (hagain s s' hI ha) hr

/-- **Total correctness**: the index of the invariant is the variant, and bounds the turns that are left. -/
theorem run_total (I : Nat → σ → Prop) (Q : ρ → Prop)
    (hturn : ∀ k s, I k s → (∃ r, body s = some (.done r) ∧ Q r) ∨
      ∃ s' k', body s = some (.again s') ∧ k' < k ∧ I k' s') :
    ∀ {n k : Nat} {s : σ}, I k s → k < n → ∃ r, run body n s = some r ∧ Q r
  | 0, _, _, _, h => by omega
  | n + 1, k, s, hI, hk => by
    rcases hturn k s hI with ⟨r, hd, hq⟩ | ⟨s', k', ha, hlt, hI'⟩
    · exact ⟨r, run_done hd, hq⟩
    · obtain ⟨r, hr, hq⟩ := run_total I Q hturn (n := n) hI' (by omega)
      exact ⟨r, by rw [run_again ha]; exact hr, hq⟩

/-- A loop that every turn keeps among states where it goes round again never ends. -/
theorem run_none_of_closed (I : σ → Prop) (h : ∀ s, I s → ∃ s', body s = some (.again s') ∧ I s') :
    ∀ {n : Nat} {s : σ}, I s → run body n s = none
  | 0, _, _ => rfl
  | n + 1, s, hI => by
    obtain ⟨s', ha, hI'⟩ := h s hI
    rw [run_again ha]
    exact run_none_of_closed I h hI'

/-- A loop that reaches a turn which hangs gives no result. -/
theorem run_none_of_reach {s t : σ} (h : Reach body s t) (ht : ∀ n, run body n t = none) (n : Nat) :
    run body n s = none := by
  induction h generalizing n with
  | refl => exact ht n
  | step _ hu ih =>
    refine ih (fun m => ?_) n
    cases m with
    | zero => rfl
    | succ m => rw [run_again hu]; exact ht m

/-- **A loop with a variant ends exactly when no turn that it reaches hangs.** The index of the invariant is the
variant. -/
theorem ends_iff (I : Nat → σ → Prop)
    (hagain : ∀ k s s', I k s → body s = some (.again s') → ∃ k', k' < k ∧ I k' s') {k : Nat} {s : σ} (hI : I k s) :
    (∃ n r, run body n s = some r) ↔ ∀ t, Reach body s t → body t ≠ none := by
  constructor
  · rintro ⟨n, r, hr⟩ t ht hb
    rw [run_none_of_reach ht (fun m => run_hang hb) n] at hr
    cases hr
  · intro hno
    have hturn : ∀ k u, (I k u ∧ Reach body s u) → (∃ r, body u = some (.done r) ∧ True) ∨
        ∃ u' k', body u = some (.again u') ∧ k' < k ∧ (I k' u' ∧ Reach body s u') := by
      rintro k u ⟨hu, hr⟩
      cases hb : body u with
      | none => exact absurd hb (hno u hr)
      | some t =>
        cases t with
        | done r => exact .inl ⟨r, rfl, trivial⟩
        | again u' =>
          obtain ⟨k', hlt, hu'⟩ := hagain k u u' hu hb
          exact .inr ⟨u', k', rfl, hlt, hu', hr.step hb⟩
    obtain ⟨r, hr, -⟩ := run_total _ (fun _ => True) hturn ⟨hI, .refl⟩ (Nat.lt_succ_self k)
    exact ⟨_, r, hr⟩

/-- What holds where the loop is entered, and is kept by every turn, holds wherever a turn starts. -/
theorem Reach.inv {s t : σ} (h : Reach body s t) (I : σ → Prop)
    (hagain : ∀ s s', I s → body s = some (.again s') → I s') (hI : I s) : I t := by
  induction h with
  | refl => exact hI
  | step _ hu ih => exact hagain _ _ ih hu

end Loop

end ProgLib
