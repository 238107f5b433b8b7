import Mathlib.Tactic

/-!
# Records with keys

A list of records stands for a linked list of objects whose addresses are their keys. `put` writes one record back,
`remove` takes one off. With distinct keys, both are a change of one place of the list, up to order (`exists_split`), so
what the records hold all together is easily told (`perm_flatMap`, `perm_put_cons`, `perm_cons_put`).
-/

set_option autoImplicit false

namespace ProgLib.Keyed

variable {α β κ : Type} [DecidableEq κ] {key : α → κ} {l : List α} {a a' : α}

/-- The record `a` in the place of the one with its key. -/
def put (key : α → κ) (l : List α) (a : α) : List α := l.map fun b => if key b = key a then a else b

/-- The list without the record with this key. -/
def remove (key : α → κ) (l : List α) (k : κ) : List α := l.filter fun b => key b ≠ k

theorem put_eq_self (h : key a ∉ l.map key) : put key l a = l := by
  unfold put
  conv_rhs => rw [← List.map_id l]
  apply List.map_congr_left
  intro b hb
  apply if_neg
  intro e
  exact h (e ▸ List.mem_map_of_mem hb)

/-- A record that is there can be written back. -/
theorem put_of_mem (hn : (l.map key).Nodup) (ha : a ∈ l) : put key l a = l := by
  unfold put
  conv_rhs => rw [← List.map_id l]
  apply List.map_congr_left
  intro b hb
  split
  · next hk => exact (List.inj_on_of_nodup_map hn hb ha hk).symm
  · rfl

theorem mem_put_self {b : α} (hb : b ∈ l) (hk : key b = key a) : a ∈ put key l a :=
  List.mem_map.2 ⟨b, hb, if_pos hk⟩

theorem remove_eq_self {k : κ} (h : k ∉ l.map key) : remove key l k = l := by
  unfold remove
  rw [List.filter_eq_self]
  intro b hb
  simp only [ne_eq, decide_not, Bool.not_eq_true', decide_eq_false_iff_not]
  exact fun e => h (e ▸ List.mem_map_of_mem hb)

/-- A record is written back in its place. -/
theorem put_append_cons {r : List α} (hn : ((l ++ a :: r).map key).Nodup) (hk : key a' = key a) :
    put key (l ++ a :: r) a' = l ++ a' :: r := by
  rw [List.map_append, List.map_cons, List.nodup_append, List.nodup_cons] at hn
  obtain ⟨-, ⟨hr, -⟩, hl⟩ := hn
  have hput : put key (l ++ a :: r) a' = put key l a' ++ a' :: put key r a' := by simp [put, hk]
  rw [hput, put_eq_self (by rw [hk]; exact fun hm => hl _ hm _ List.mem_cons_self rfl), put_eq_self (by rwa [hk])]

@[simp] theorem map_key_put (key : α → κ) (l : List α) (a : α) : (put key l a).map key = l.map key := by
  unfold put
  rw [List.map_map]
  apply List.map_congr_left
  intro b _
  simp only [Function.comp_apply]
  split
  · next h => exact h.symm
  · rfl

theorem map_key_remove (key : α → κ) (l : List α) (k : κ) : ((remove key l k).map key).Sublist (l.map key) :=
  List.filter_sublist.map key

theorem mem_put {b : α} (h : b ∈ put key l a) : b = a ∨ b ∈ l ∧ key b ≠ key a := by
  obtain ⟨c, hc, he⟩ := List.mem_map.1 h
  split at he
  · exact .inl he.symm
  · next hk =>
    subst he
    exact .inr ⟨hc, hk⟩

theorem mem_remove {b : α} {k : κ} : b ∈ remove key l k ↔ b ∈ l ∧ key b ≠ k := by
  unfold remove
  simp only [List.mem_filter, decide_eq_true_eq]

/-- **One place of the list changes.** -/
theorem exists_split (hn : (l.map key).Nodup) (ha : a ∈ l) : ∃ rest, l.Perm (a :: rest) ∧
    (∀ a', key a' = key a → (put key l a').Perm (a' :: rest)) ∧ (remove key l (key a)).Perm rest := by
  induction l with
  | nil => cases ha
  | cons b l ih =>
    rw [List.map_cons, List.nodup_cons] at hn
    rcases List.mem_cons.1 ha with rfl | ha
    · refine ⟨l, .refl _, fun a' hk => ?_, ?_⟩
      · have hput : put key (a :: l) a' = a' :: put key l a' := by
          unfold put
          rw [List.map_cons, if_pos hk.symm]
        rw [hput, put_eq_self (by rw [hk]; exact hn.1)]
      · have hrem : remove key (a :: l) (key a) = remove key l (key a) := by
          unfold remove
          rw [List.filter_cons_of_neg (by simp)]
        rw [hrem, remove_eq_self hn.1]
    · have hb : key b ≠ key a := fun e => hn.1 (e ▸ List.mem_map_of_mem ha)
      obtain ⟨rest, hl, hp, hr⟩ := ih hn.2 ha
      refine ⟨b :: rest, (hl.cons b).trans (.swap a b rest), fun a' hk => ?_, ?_⟩
      · have hput : put key (b :: l) a' = b :: put key l a' := by
          unfold put
          rw [List.map_cons, if_neg (by rw [hk]; exact hb)]
        rw [hput]
        exact ((hp a' hk).cons b).trans (.swap a' b rest)
      · have hrem : remove key (b :: l) (key a) = b :: remove key l (key a) := by
          unfold remove
          rw [List.filter_cons_of_pos (by simpa using hb)]
        rw [hrem]
        exact hr.cons b

/-- **What all records hold**, with one of them changed or gone. -/
theorem perm_flatMap (f : α → List β) (hn : (l.map key).Nodup) (ha : a ∈ l) : ∃ rest, (l.flatMap f).Perm (f a ++ rest) ∧
    (∀ a', key a' = key a → ((put key l a').flatMap f).Perm (f a' ++ rest)) ∧
    ((remove key l (key a)).flatMap f).Perm rest := by
  obtain ⟨rest, hl, hp, hr⟩ := exists_split hn ha
  exact ⟨rest.flatMap f, hl.flatMap_right f, fun a' hk => (hp a' hk).flatMap_right f, hr.flatMap_right f⟩

/-- The other records are where they were. -/
theorem mem_put_of_ne {b : α} (hb : b ∈ l) (hk : key b ≠ key a) : b ∈ put key l a := by
  apply List.mem_map.2
  exact ⟨b, hb, if_neg hk⟩

/-- What a changed record has more is what all records have more. -/
theorem perm_put_cons {f : α → List β} {x : β} (hn : (l.map key).Nodup) (ha : a ∈ l) (hk : key a' = key a)
    (hf : (f a').Perm (x :: f a)) : ((put key l a').flatMap f).Perm (x :: l.flatMap f) := by
  obtain ⟨rest, hl, hp, -⟩ := perm_flatMap f hn ha
  have hput := (hp a' hk).trans (hf.append_right rest)
  exact hput.trans (hl.symm.cons x)

/-- What a changed record has less is what all records have less. -/
theorem perm_cons_put {f : α → List β} {x : β} (hn : (l.map key).Nodup) (ha : a ∈ l) (hk : key a' = key a)
    (hf : (f a).Perm (x :: f a')) : (l.flatMap f).Perm (x :: (put key l a').flatMap f) := by
  obtain ⟨rest, hl, hp, -⟩ := perm_flatMap f hn ha
  have hput := hl.trans (hf.append_right rest)
  exact hput.trans ((hp a' hk).symm.cons x)

/-- What does not change of one record does not change of the list. -/
theorem map_put_of_mem {γ : Type} (g : α → γ) (hn : (l.map key).Nodup) (ha : a ∈ l) (hk : key a' = key a)
    (hg : g a' = g a) : (put key l a').map g = l.map g := by
  unfold put
  rw [List.map_map]
  apply List.map_congr_left
  intro b hb
  simp only [Function.comp_apply]
  split
  · next h => rw [hg, List.inj_on_of_nodup_map hn hb ha (h.trans hk)]
  · rfl

/-- With distinct keys, the first record with a key is the one. -/
theorem perm_eraseP {r : List α} (hn : (l.map key).Nodup) (h : l.Perm (a :: r)) :
    (l.eraseP fun b => key b = key a).Perm r := by
  have ha : a ∈ l := h.mem_iff.2 List.mem_cons_self
  obtain ⟨b, l₁, l₂, -, hb, hl, he⟩ := List.exists_of_eraseP ha (p := fun b => decide (key b = key a)) (by simp)
  have hab : b = a :=
    List.inj_on_of_nodup_map hn (by rw [hl]; simp) ha (of_decide_eq_true hb)
  subst hab
  rw [he]
  rw [hl] at h
  exact (List.perm_cons b).1 (List.perm_middle.symm.trans h)

omit [DecidableEq κ] in
/-- **One record after the other**: work on one record leaves the others as they were, so that what it keeps is kept by
the work on all of them. -/
theorem foldl_inv {σ : Type} {f : σ → α → σ} (records : σ → List α) (I : σ → Prop)
    (hstep : ∀ s a, I s → a ∈ records s → I (f s a) ∧ ∀ b ∈ records s, key b ≠ key a → b ∈ records (f s a)) :
    ∀ {l : List α} {s : σ}, (l.map key).Nodup → (∀ a ∈ l, a ∈ records s) → I s → I (l.foldl f s)
  | [], _, _, _, hI => hI
  | a :: l, s, hn, hl, hI => by
    rw [List.map_cons, List.nodup_cons] at hn
    obtain ⟨hI', hrest⟩ := hstep s a hI (hl a List.mem_cons_self)
    apply foldl_inv records I hstep hn.2 _ hI'
    intro b hb
    apply hrest b (hl b (List.mem_cons_of_mem _ hb))
    intro e
    exact hn.1 (e ▸ List.mem_map_of_mem hb)

/-- All records are written back, one after the other. -/
theorem foldl_put (f : α → α) (hk : ∀ a, key (f a) = key a) (hn : (l.map key).Nodup) :
    l.foldl (fun m a => put key m (f a)) l = l.map f := by
  suffices h : ∀ w u : List α, ((u ++ w).map key).Nodup →
      w.foldl (fun m a => put key m (f a)) (u.map f ++ w) = (u ++ w).map f by
    exact h l [] hn
  intro w
  induction w with
  | nil => simp
  | cons a w ih =>
    intro u hn
    rw [List.map_append, List.map_cons, List.nodup_append, List.nodup_cons] at hn
    have hu : key (f a) ∉ (u.map f).map key := by
      have hmap : (u.map f).map key = u.map key := by
        rw [List.map_map]
        exact List.map_congr_left fun b _ => hk b
      rw [hk, hmap]
      exact fun hm => hn.2.2 _ hm _ List.mem_cons_self rfl
    have hw : key (f a) ∉ w.map key := by
      rw [hk]
      exact hn.2.1.1
    have hput : put key (u.map f ++ a :: w) (f a) = (u ++ [a]).map f ++ w := by
      have hs : put key (u.map f ++ a :: w) (f a) = put key (u.map f) (f a) ++ (f a :: put key w (f a)) := by
        simp [put, hk]
      rw [hs, put_eq_self hu, put_eq_self hw]
      simp
    rw [List.foldl_cons, hput, ih (u ++ [a])]
    · simp
    · rw [List.append_assoc, List.singleton_append, List.map_append, List.map_cons, List.nodup_append, List.nodup_cons]
      exact hn

end ProgLib.Keyed
