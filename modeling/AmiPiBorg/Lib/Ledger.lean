import Mathlib.Tactic

/-!
# Ledgers

A ledger lists what a program has taken and not given back. `give` takes an entry off, and fails if it is not there, so
a program that gets through has given back nothing twice. `within` is the pattern of nested acquisition: take something,
go on, and give it back if that fails. Programs that are built from it get everything or nothing (`AllOrNothing.within`).
-/

set_option autoImplicit false

namespace ProgLib.Ledger

variable {κ : Type} [DecidableEq κ] {k : κ} {l m ks : List κ}

/-- The entry `k` is given back. -/
def give (k : κ) (l : List κ) : Option (List κ) := if k ∈ l then some (l.erase k) else none

/-- What there may be is given back. -/
def giveAny : Option κ → List κ → Option (List κ)
  | none, l => some l
  | some k, l => give k l

/-- What an attempt to take something answers; then the rest, and if that fails, back with it. -/
def within (k : Option κ) (rest : List κ → Option (Bool × List κ)) (l : List κ) : Option (Bool × List κ) :=
  match k with
  | none => some (false, l)
  | some k => (rest (k :: l)).bind fun r => if r.1 then some r else (give k r.2).map fun l => (false, l)

theorem give_of_mem (h : k ∈ l) : give k l = some (l.erase k) := if_pos h

@[simp] theorem give_cons (k : κ) (l : List κ) : give k (k :: l) = some l := by
  rw [give_of_mem List.mem_cons_self, List.erase_cons_head]

theorem give_perm (h : l.Perm (k :: m)) : ∃ l', give k l = some l' ∧ l'.Perm m := by
  refine ⟨l.erase k, give_of_mem (h.mem_iff.2 List.mem_cons_self), ?_⟩
  have he := h.erase k
  rwa [List.erase_cons_head] at he

/-- The program takes all of `ks`, or nothing. -/
def AllOrNothing (p : List κ → Option (Bool × List κ)) (ks : List κ) : Prop :=
  ∀ l, p l = some (false, l) ∨ p l = some (true, ks ++ l)

/-- **Nested acquisition** takes all or nothing. -/
theorem AllOrNothing.within {rest : List κ → Option (Bool × List κ)} (h : AllOrNothing rest ks) (k : Option κ) :
    AllOrNothing (Ledger.within k rest) (ks ++ k.toList) := by
  intro l
  cases k with
  | none => exact .inl rfl
  | some k =>
    rcases h (k :: l) with h | h
    · exact .inl (by simp [Ledger.within, h])
    · exact .inr (by simp [Ledger.within, h])

omit [DecidableEq κ] in
theorem allOrNothing_last (b : Bool) (k : κ) :
    AllOrNothing (fun l => some (if b then (true, k :: l) else (false, l))) [k] := by
  intro l
  cases b
  · exact .inl rfl
  · exact .inr rfl

end ProgLib.Ledger
