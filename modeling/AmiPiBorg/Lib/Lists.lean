import AmiPiBorg.Lib.Links

/-!
# Several linked lists

A family of linked lists that have no node in common. The link in front of the first header node and the one after the
last stand for one word of the header, so both are `nil` as long as the list is intact.

* `Lists.remove`, `Lists.addTail`: what the operations make of the lists.
* `Lists.remove_iff`: a node that is on none of them is removed without a trace if and only if those of its recorded
  neighbours that are on a list are still neighbours there.
* `forNodes`: a loop that goes from a node to its successor, and `forNodes_linked` for one whose body leaves the list
  alone.
-/

set_option autoImplicit false

namespace ProgLib

open Links

variable {ι κ σ : Type} {nil a : ι} {L L' : Links ι} {h : Header ι} {l l' u w : List ι}

instance [DecidableEq ι] (L : Links ι) (a b : ι) : Decidable (L.Next a b) := inferInstanceAs (Decidable (_ ∧ _))

/-! ## The links of a list are determined -/

/-- Along a chain of neighbours, all successors but the last one's and all predecessors but the first one's. -/
theorem isChain_links : ∀ {l : List ι}, l.IsChain L.Next → l.IsChain L'.Next →
    (∀ b ∈ l.dropLast, L'.succ b = L.succ b) ∧ ∀ b ∈ l.tail, L'.pred b = L.pred b
  | [], _, _ => ⟨fun _ hb => absurd hb List.not_mem_nil, fun _ hb => absurd hb List.not_mem_nil⟩
  | [x], _, _ => ⟨fun _ hb => absurd hb List.not_mem_nil, fun _ hb => absurd hb List.not_mem_nil⟩
  | x :: y :: l, hc, hc' => by
    obtain ⟨h₁, hc⟩ := List.isChain_cons_cons.1 hc
    obtain ⟨h₂, hc'⟩ := List.isChain_cons_cons.1 hc'
    obtain ⟨hs, hp⟩ := isChain_links hc hc'
    constructor
    · intro b hb
      rw [List.dropLast_cons_cons] at hb
      obtain rfl | hb := List.mem_cons.1 hb
      · exact h₂.1.trans h₁.1.symm
      · exact hs b hb
    · intro b hb
      obtain rfl | hb := List.mem_cons.1 hb
      · exact h₂.2.trans h₁.2.symm
      · exact hp b hb

theorem Linked.succ_eq (hl : Linked nil L h l) (hl' : Linked nil L' h l) : ∀ b ∈ h.nodes l, L'.succ b = L.succ b := by
  intro b hb
  have hd : (h.nodes l).dropLast = h.head :: l := by
    rw [Header.nodes, ← List.cons_append, List.dropLast_concat]
  obtain rfl | hb' := or_iff_not_imp_left.2 fun hne : b ≠ h.tail => show b ∈ h.head :: l from by
    simpa [Header.nodes, hne] using hb
  · exact hl'.last.trans hl.last.symm
  · exact (isChain_links hl.next hl'.next).1 b (hd ▸ hb')

theorem Linked.pred_eq (hl : Linked nil L h l) (hl' : Linked nil L' h l) (hh : L'.pred h.head = L.pred h.head) :
    ∀ b ∈ h.nodes l, L'.pred b = L.pred b := by
  intro b hb
  obtain rfl | hb := List.mem_cons.1 hb
  · exact hh
  · exact (isChain_links hl.next hl'.next).2 b hb

theorem Linked.succ_head (hl : Linked nil L h l) : L.succ h.head = l.headD h.tail := by
  cases l with
  | nil => exact (List.isChain_cons_cons.1 hl.next).1.1
  | cons a l => exact (List.isChain_cons_cons.1 hl.next).1.1

/-- The node after one of a list. -/
theorem Linked.succ_eq_headD (hl : Linked nil L h (u ++ a :: w)) : L.succ a = w.headD h.tail := by
  have hc := hl.next
  rw [Header.nodes, List.append_assoc, List.cons_append, ← List.cons_append] at hc
  have hw := (List.isChain_append.1 hc).2.1
  cases w with
  | nil => exact (List.isChain_cons_cons.1 hw).1.1
  | cons b w => exact (List.isChain_cons_cons.1 hw).1.1

theorem Linked.succ_ne_nil (hl : Linked nil L h (u ++ a :: w)) : L.succ a ≠ nil := by
  intro he
  apply hl.ne_nil
  have hs := hl.neighbours.2
  rw [he] at hs
  exact List.mem_cons_of_mem _ (by simp only [List.append_assoc, List.cons_append, List.mem_append, List.mem_cons] at hs ⊢; tauto)

/-! ## Families -/

/-- The lists `k` of `S`, with headers `h k`, have the nodes `q k`. -/
structure Lists (nil : ι) (L : Links ι) (S : Set κ) (h : κ → Header ι) (q : κ → List ι) : Prop where
  linked : ∀ k ∈ S, Linked nil L (h k) (q k)
  first : ∀ k ∈ S, L.pred (h k).head = nil
  disjoint : ∀ k ∈ S, ∀ k' ∈ S, k ≠ k' → ((h k).nodes (q k)).Disjoint ((h k').nodes (q k'))

namespace Lists

variable {S : Set κ} {h : κ → Header ι} {q q' : κ → List ι} {k : κ}

theorem congr (hq : Lists nil L S h q) (he : ∀ k ∈ S, q' k = q k) : Lists nil L S h q' where
  linked k hk := he k hk ▸ hq.linked k hk
  first := hq.first
  disjoint k hk k' hk' hne := by
    rw [he k hk, he k' hk']
    exact hq.disjoint k hk k' hk' hne

theorem unique (hq : Lists nil L S h q) (hq' : Lists nil L S h q') (hk : k ∈ S) : q k = q' k :=
  (hq.linked k hk).unique (hq'.linked k hk)

variable [DecidableEq ι]

/-- **Removing a node that is on no list** is harmless exactly if its recorded neighbours still record each other. -/
theorem remove_iff (hq : Lists nil L S h q) :
    Lists nil (L.remove a) S h q ↔ ∀ k ∈ S, (L.pred a ∈ (h k).nodes (q k) → L.succ (L.pred a) = L.succ a) ∧
      (L.succ a ∈ (h k).nodes (q k) → L.pred (L.succ a) = L.pred a) := by
  constructor
  · intro hq' k hk
    constructor
    · intro hm
      rw [← (hq.linked k hk).succ_eq (hq'.linked k hk) _ hm]
      exact join_succ_self
    · intro hm
      have hh := (hq'.first k hk).trans (hq.first k hk).symm
      rw [← (hq.linked k hk).pred_eq (hq'.linked k hk) hh _ hm]
      exact join_pred_self
  · intro hn
    have hs : ∀ k ∈ S, ∀ b ∈ (h k).nodes (q k), (L.remove a).succ b = L.succ b := by
      intro k hk b hb
      by_cases he : b = L.pred a
      · rw [he, ((hn k hk).1 (he ▸ hb))]
        exact join_succ_self
      · exact join_succ_of_ne he
    have hp : ∀ k ∈ S, ∀ b ∈ (h k).nodes (q k), (L.remove a).pred b = L.pred b := by
      intro k hk b hb
      by_cases he : b = L.succ a
      · rw [he, ((hn k hk).2 (he ▸ hb))]
        exact join_pred_self
      · exact join_pred_of_ne he
    exact ⟨fun k hk => (hq.linked k hk).congr (hs k hk) (hp k hk),
      fun k hk => (hp k hk _ (by simp)).trans (hq.first k hk), hq.disjoint⟩

variable [DecidableEq κ]

theorem remove (hq : Lists nil L S h q) (hk : k ∈ S) (he : q k = u ++ a :: w) :
    Lists nil (L.remove a) S h (Function.update q k (u ++ w)) := by
  have hl := hq.linked k hk
  rw [he] at hl
  obtain ⟨hp, hs⟩ := hl.neighbours
  have hp : L.pred a ∈ (h k).nodes (q k) := by
    rw [he]
    simp only [List.mem_cons, Header.mem_nodes, List.mem_append] at hp ⊢
    tauto
  have hs : L.succ a ∈ (h k).nodes (q k) ∧ L.succ a ≠ (h k).head := by
    have hn := hl.nodup
    simp only [Header.nodes, List.nodup_cons, List.mem_append, List.mem_cons] at hn
    rw [he]
    simp only [List.mem_append, Header.mem_nodes, List.mem_cons] at hs ⊢
    refine ⟨by tauto, fun hh => hn.1 ?_⟩
    rw [← hh]
    tauto
  have hsub : ∀ j ∈ S, ((h j).nodes (Function.update q k (u ++ w) j)) ⊆ (h j).nodes (q j) := by
    intro j _
    by_cases hj : j = k
    · rw [hj, Function.update_self, he]
      intro b
      simp only [Header.mem_nodes, List.mem_append, List.mem_cons]
      tauto
    · rw [Function.update_of_ne hj]
      exact List.Subset.refl _
  refine ⟨fun j hj => ?_, fun j hj => ?_, fun j hj j' hj' hne => ?_⟩
  · by_cases hjk : j = k
    · rw [hjk, Function.update_self]
      exact hl.remove
    · rw [Function.update_of_ne hjk]
      exact (hq.linked j hj).remove_other (fun hm => hq.disjoint j hj k hk hjk hm hp)
        fun hm => hq.disjoint j hj k hk hjk hm hs.1
  · refine (join_pred_of_ne fun hh => ?_).trans (hq.first j hj)
    by_cases hjk : j = k
    · exact hs.2 (hjk ▸ hh.symm)
    · exact hq.disjoint j hj k hk hjk (by simp [← hh]) hs.1
  · exact List.disjoint_of_subset_left (hsub j hj) (List.disjoint_of_subset_right (hsub j' hj') (hq.disjoint j hj j' hj' hne))

omit [DecidableEq ι] in
/-- After its removal a node is on no list. -/
theorem notMem_removed (hq : Lists nil L S h q) (hk : k ∈ S) (he : q k = u ++ a :: w) :
    ∀ j ∈ S, a ∉ (h j).nodes (Function.update q k (u ++ w) j) := by
  intro j hj hm
  have ha : a ∈ (h k).nodes (q k) := by simp [he]
  by_cases hjk : j = k
  · rw [hjk, Function.update_self] at hm
    have hn := (hq.linked k hk).nodup
    rw [he] at hn
    have hperm : ((h k).nodes (u ++ a :: w)).Perm (a :: (h k).nodes (u ++ w)) := by
      simp only [Header.nodes, List.append_assoc, List.cons_append]
      exact (List.perm_middle.cons _).trans (.swap ..)
    exact (List.nodup_cons.1 (hperm.nodup_iff.1 hn)).1 hm
  · rw [Function.update_of_ne hjk] at hm
    exact hq.disjoint j hj k hk hjk hm ha

theorem addTail (hq : Lists nil L S h q) (hk : k ∈ S) (ha : ∀ j ∈ S, a ∉ (h j).nodes (q j)) (hnil : a ≠ nil) :
    Lists nil (L.addTail (h k) a) S h (Function.update q k (q k ++ [a])) := by
  have hl := hq.linked k hk
  have ht : (h k).tail ∈ (h k).nodes (q k) := by simp
  have hp : L.pred (h k).tail ∈ (h k).nodes (q k) := List.mem_append_left [(h k).tail] hl.pred_tail
  have hmem : ∀ j, ∀ b ∈ (h j).nodes (Function.update q k (q k ++ [a]) j), b ∈ (h j).nodes (q j) ∨ j = k ∧ b = a := by
    intro j b hb
    by_cases hj : j = k
    · rw [hj, Function.update_self] at hb
      simp only [hj, Header.mem_nodes, List.mem_append, List.mem_singleton] at hb ⊢
      tauto
    · rw [Function.update_of_ne hj] at hb
      exact .inl hb
  refine ⟨fun j hj => ?_, fun j hj => ?_, fun j hj j' hj' hne => ?_⟩
  · by_cases hjk : j = k
    · rw [hjk, Function.update_self]
      exact hl.addTail (ha k hk) hnil
    · rw [Function.update_of_ne hjk]
      exact (hq.linked j hj).addTail_other (ha j hj) (fun hm => hq.disjoint j hj k hk hjk hm ht)
        fun hm => hq.disjoint j hj k hk hjk hm hp
  · have hha : (h j).head ≠ a := fun hh => ha j hj (by simp [← hh])
    have hht : (h j).head ≠ (h k).tail := by
      intro hh
      by_cases hjk : j = k
      · exact hl.head_ne_tail (hjk ▸ hh)
      · exact hq.disjoint j hj k hk hjk (by simp) (hh ▸ ht)
    rw [Links.addTail, join_pred_of_ne hha, join_pred_of_ne hht]
    exact hq.first j hj
  · intro b hb hb'
    obtain hb | hba := hmem j b hb
    · obtain hb' | hba := hmem j' b hb'
      · exact hq.disjoint j hj j' hj' hne hb hb'
      · exact ha j hj (hba.2 ▸ hb)
    · obtain hb' | hba' := hmem j' b hb'
      · exact ha j' hj' (hba.2 ▸ hb')
      · exact hne (hba.1.trans hba'.1.symm)

end Lists

/-! ## Loops along a list -/

/-- `for(n = node; n->ln_Succ; n = n->ln_Succ)`, with a loop body that can change the links, for at most so many nodes. -/
def forNodes (nil : ι) [DecidableEq ι] (links : σ → Links ι) (body : σ → ι → Option σ) : Nat → ι → σ → Option σ
  | 0, _, _ => none
  | n + 1, node, s =>
    if (links s).succ node = nil then some s
    else (body s node).bind fun s => forNodes nil links body n ((links s).succ node) s

section Loops

variable [DecidableEq ι] {links : σ → Links ι} {body body' : σ → ι → Option σ}

theorem forNodes_end {n : Nat} {node : ι} {s : σ} (hs : (links s).succ node = nil) :
    forNodes nil links body (n + 1) node s = some s := if_pos hs

theorem forNodes_next {n : Nat} {node : ι} {s s' : σ} (hs : (links s).succ node ≠ nil) (hb : body s node = some s') :
    forNodes nil links body (n + 1) node s = forNodes nil links body n ((links s').succ node) s' := by
  rw [forNodes, if_neg hs, hb, Option.bind_some]

/-- A loop that ends does so with more steps allowed, in its body too. -/
theorem forNodes_mono (hb : ∀ s a s', body s a = some s' → body' s a = some s') {s' : σ} : ∀ {n n' : Nat} {node : ι} {s : σ},
    n ≤ n' → forNodes nil links body n node s = some s' → forNodes nil links body' n' node s = some s'
  | 0, _, _, _, _, he => nomatch he
  | n + 1, 0, _, _, hn, _ => absurd hn (Nat.not_succ_le_zero n)
  | n + 1, n' + 1, node, s, hn, he => by
    by_cases hs : (links s).succ node = nil
    · rw [forNodes_end hs] at he ⊢
      exact he
    · rw [forNodes, if_neg hs] at he
      obtain ⟨t, ht, he⟩ := Option.bind_eq_some_iff.1 he
      rw [forNodes_next hs (hb s node t ht)]
      exact forNodes_mono hb (Nat.le_of_succ_le_succ hn) he

/-- **A loop along a list that its body leaves alone.** `Inv u s` says what holds when the nodes `u` are done. -/
theorem forNodes_linked {Inv : List ι → σ → Prop} {s : σ} (hl : Linked nil (links s) h l) (hi : Inv [] s)
    (hb : ∀ u a w s, l = u ++ a :: w → Linked nil (links s) h l → Inv u s →
      ∃ s', body s a = some s' ∧ Linked nil (links s') h l ∧ Inv (u ++ [a]) s') :
    ∃ s', forNodes nil links body (l.length + 1) ((links s).succ h.head) s = some s' ∧ Linked nil (links s') h l ∧
      Inv l s' := by
  suffices hw : ∀ w u s, l = u ++ w → Linked nil (links s) h l → Inv u s →
      ∃ s', forNodes nil links body (w.length + 1) (w.headD h.tail) s = some s' ∧ Linked nil (links s') h l ∧ Inv l s' by
    rw [hl.succ_head]
    exact hw l [] s rfl hl hi
  intro w
  induction w with
  | nil =>
    intro u s he hl hi
    rw [List.append_nil] at he
    exact ⟨s, forNodes_end hl.last, hl, he ▸ hi⟩
  | cons a w ih =>
    intro u s he hl hi
    obtain ⟨s', hs', hl', hi'⟩ := hb u a w s he hl hi
    obtain ⟨s'', hr, hl'', hi''⟩ := ih (u ++ [a]) s' (by simpa using he) hl' hi'
    have hn : (links s).succ a ≠ nil := by
      rw [he] at hl
      exact hl.succ_ne_nil
    have hn' : (links s').succ a = w.headD h.tail := by
      rw [he] at hl'
      exact hl'.succ_eq_headD
    refine ⟨s'', ?_, hl'', hi''⟩
    rw [List.length_cons, List.headD_cons, forNodes_next hn hs', hn']
    exact hr

end Loops

end ProgLib
