import Mathlib.Tactic

/-!
# Chains of linked nodes

`Chain next p l`: following `next` from the pointer `p` meets exactly the nodes `l`, in order, and then null. A chain
has no cycle (`Chain.nodup`), is determined by its start (`Chain.unique`), depends on `next` at its own nodes only
(`Chain.congr`), and a node hung at its end lengthens it by that node (`Chain.snoc`).
-/

set_option autoImplicit false

namespace ProgLib

variable {ι : Type} {next next' : ι → Option ι}

/-- The nodes met from `p` are `l`. -/
def Chain (next : ι → Option ι) : Option ι → List ι → Prop
  | p, [] => p = none
  | p, a :: l => p = some a ∧ Chain next (next a) l

namespace Chain

@[simp] theorem nil_iff {p : Option ι} : Chain next p [] ↔ p = none := Iff.rfl

@[simp] theorem cons_iff {p : Option ι} {a : ι} {l : List ι} :
    Chain next p (a :: l) ↔ p = some a ∧ Chain next (next a) l := Iff.rfl

theorem head {p : Option ι} : ∀ {l : List ι}, Chain next p l → p = l.head?
  | [], h => h
  | _ :: _, h => h.1

/-- A chain from a node starts with that node. -/
theorem of_some {a : ι} : ∀ {l : List ι}, Chain next (some a) l → ∃ l', l = a :: l' ∧ Chain next (next a) l'
  | [], h => by cases h
  | _ :: l', h => by
    obtain ⟨h₁, h₂⟩ := h
    cases h₁
    exact ⟨l', rfl, h₂⟩

theorem unique : ∀ {l l' : List ι} {p : Option ι}, Chain next p l → Chain next p l' → l = l'
  | [], [], _, _, _ => rfl
  | [], _ :: _, _, h, h' => by rw [nil_iff] at h; rw [h] at h'; cases h'.1
  | _ :: _, [], _, h, h' => by rw [nil_iff] at h'; rw [h'] at h; cases h.1
  | a :: l, b :: l', _, h, h' => by
    have : a = b := Option.some.inj (h.1.symm.trans h'.1)
    subst this
    rw [unique h.2 h'.2]

/-- Only the links of the chain's own nodes matter. -/
theorem congr : ∀ {l : List ι} {p : Option ι}, Chain next p l → (∀ a ∈ l, next' a = next a) → Chain next' p l
  | [], _, h, _ => h
  | a :: l, _, h, hc =>
    ⟨h.1, by rw [hc a List.mem_cons_self]; exact congr h.2 (fun b hb => hc b (List.mem_cons_of_mem a hb))⟩

/-- The chain from a node inside a chain is the rest of that chain. -/
theorem suffix : ∀ {pre : List ι} {p : Option ι} {a : ι} {l : List ι}, Chain next p (pre ++ a :: l) →
    Chain next (some a) (a :: l)
  | [], _, _, _, h => ⟨rfl, h.2⟩
  | _ :: _, _, _, _, h => suffix h.2

/-- A chain ends, so it meets no node twice. -/
theorem nodup {l : List ι} {p : Option ι} (h : Chain next p l) : l.Nodup := by
  induction l generalizing p with
  | nil => exact List.nodup_nil
  | cons a l ih =>
    refine List.nodup_cons.2 ⟨fun hm => ?_, ih h.2⟩
    -- a second visit to `a` would make the rest of the chain equal to a proper part of itself
    obtain ⟨pre, post, hl⟩ := List.append_of_mem hm
    have h₁ : Chain next (next a) l := h.2
    have h₂ : Chain next (next a) post := (suffix (hl ▸ h₁)).2
    have := congrArg List.length (unique h₁ h₂)
    rw [hl] at this
    simp at this
    omega

theorem link {pre : List ι} {p : Option ι} {a : ι} {l : List ι} (h : Chain next p (pre ++ a :: l)) :
    next a = l.head? := (suffix h).2.head

/-- **Hanging a node at the end**: all links stay, but that of the last node, which now points to the new one. -/
theorem snoc [DecidableEq ι] {p : Option ι} {l : List ι} {last new : ι} (h : Chain next p (l ++ [last]))
    (hnew : new ∉ l ++ [last]) (hn : next' new = none) (hlast : next' last = some new)
    (hc : ∀ a ∈ l, next' a = next a) : Chain next' p (l ++ [last, new]) := by
  induction l generalizing p with
  | nil => exact ⟨h.1, hlast, hn⟩
  | cons a l ih =>
    refine ⟨h.1, ?_⟩
    rw [hc a List.mem_cons_self]
    exact ih h.2 (fun hm => hnew (List.mem_cons_of_mem a hm)) (fun b hb => hc b (List.mem_cons_of_mem a hb))

end Chain

end ProgLib
