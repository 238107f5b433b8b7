import Mathlib.Tactic
import Mathlib.Data.List.Chain

/-!
# Doubly linked lists

Nodes are linked in both directions, and a list has a header, whose two nodes stand before its first node and after its
last. `Linked nil L h l` says that the nodes between are `l`. To remove a node is to link the two nodes that it records
as its neighbours; its own links stay as they are. So the removal of a node that is on no list can do harm to any list
that one of these two is on, and to no other (`Linked.remove_other`).
-/

set_option autoImplicit false

namespace ProgLib

/-- The links that all nodes record. -/
structure Links (ι : Type) where
  succ : ι → ι
  pred : ι → ι

/-- The header of a list, as the nodes before its first node and after its last. -/
structure Header (ι : Type) where
  head : ι
  tail : ι

variable {ι : Type}

namespace Links

/-- `a` and `b` are neighbours. -/
def Next (L : Links ι) (a b : ι) : Prop := L.succ a = b ∧ L.pred b = a

variable [DecidableEq ι]

/-- Makes `b` follow `a`. -/
def join (L : Links ι) (a b : ι) : Links ι where
  succ := Function.update L.succ a b
  pred := Function.update L.pred b a

def remove (L : Links ι) (a : ι) : Links ι := L.join (L.pred a) (L.succ a)

def addTail (L : Links ι) (h : Header ι) (a : ι) : Links ι :=
  (L.join a h.tail).join (L.pred h.tail) a

/-- Where a node has no successor (`nil`), it is the last one of a header. -/
def remHead (nil : ι) (L : Links ι) (h : Header ι) : Option ι × Links ι :=
  let node := L.succ h.head
  let next := L.succ node
  if next = nil then (none, L) else (some node, L.join h.head next)

/-- An empty list. -/
def newList (nil : ι) (L : Links ι) (h : Header ι) : Links ι :=
  { L.join h.head h.tail with succ := Function.update (L.join h.head h.tail).succ h.tail nil }

def isEmpty (L : Links ι) (h : Header ι) : Bool := L.pred h.tail = h.head

variable {L : Links ι} {a b c : ι}

@[simp] theorem join_succ_self : (L.join a b).succ a = b := Function.update_self ..

@[simp] theorem join_pred_self : (L.join a b).pred b = a := Function.update_self ..

theorem join_succ_of_ne (h : c ≠ a) : (L.join a b).succ c = L.succ c := Function.update_of_ne h ..

theorem join_pred_of_ne (h : c ≠ b) : (L.join a b).pred c = L.pred c := Function.update_of_ne h ..

theorem next_join : (L.join a b).Next a b := ⟨join_succ_self, join_pred_self⟩

end Links

open Links

/-- The header and the nodes of a list. -/
def Header.nodes (h : Header ι) (l : List ι) : List ι := h.head :: (l ++ [h.tail])

@[simp] theorem Header.mem_nodes {h : Header ι} {l : List ι} {a : ι} :
    a ∈ h.nodes l ↔ a = h.head ∨ a ∈ l ∨ a = h.tail := by simp [Header.nodes]

/-- The list with header `h` has the nodes `l`. -/
structure Linked (nil : ι) (L : Links ι) (h : Header ι) (l : List ι) : Prop where
  next : (h.nodes l).IsChain L.Next
  nodup : (h.nodes l).Nodup
  last : L.succ h.tail = nil
  ne_nil : nil ∉ h.nodes l

namespace Linked

variable {nil : ι} {L L' : Links ι} {h h' : Header ι} {l l' u w : List ι} {a : ι}

/-! ## Nodes and their neighbours -/

theorem head_ne_tail (hl : Linked nil L h l) : h.head ≠ h.tail := by
  have hn := (List.nodup_cons.1 hl.nodup).1
  rintro he
  exact hn (List.mem_append_right _ (List.mem_singleton.2 he))

theorem notMem_head (hl : Linked nil L h l) : h.head ∉ l :=
  fun hm => (List.nodup_cons.1 hl.nodup).1 (List.mem_append_left _ hm)

theorem notMem_tail (hl : Linked nil L h l) : h.tail ∉ l := fun hm =>
  (List.nodup_append.1 (List.nodup_cons.1 hl.nodup).2).2.2 _ hm _ (List.mem_singleton_self _) rfl

theorem nodup_list (hl : Linked nil L h l) : l.Nodup := (List.nodup_append.1 (List.nodup_cons.1 hl.nodup).2).1

/-- The node before the end of a list is its last node. -/
theorem pred_tail (hl : Linked nil L h l) : L.pred h.tail ∈ h.head :: l := by
  have hc := hl.next
  rw [Header.nodes, ← List.cons_append] at hc
  have hlast := List.getLast?_eq_some_getLast (List.cons_ne_nil h.head l)
  rw [((List.isChain_append.1 hc).2.2 _ hlast h.tail rfl).2]
  exact List.getLast_mem _

theorem succ_pred_tail (hl : Linked nil L h l) : L.succ (L.pred h.tail) = h.tail := by
  have hc := hl.next
  rw [Header.nodes, ← List.cons_append] at hc
  have hlast := List.getLast?_eq_some_getLast (List.cons_ne_nil h.head l)
  have hn := (List.isChain_append.1 hc).2.2 _ hlast h.tail rfl
  rw [hn.2]
  exact hn.1

theorem pred_tail_nil (hl : Linked nil L h []) : L.pred h.tail = h.head :=
  (List.isChain_cons_cons.1 hl.next).1.2

theorem pred_tail_concat (hl : Linked nil L h (l ++ [a])) : L.pred h.tail = a := by
  have hc := hl.next
  rw [Header.nodes, ← List.cons_append, ← List.cons_append] at hc
  exact ((List.isChain_append.1 hc).2.2 a (by rw [List.getLast?_concat]; rfl) h.tail rfl).2

variable [DecidableEq ι]

theorem isEmpty_iff (hl : Linked nil L h l) : L.isEmpty h = true ↔ l = [] := by
  unfold Links.isEmpty
  rw [decide_eq_true_eq]
  constructor
  · intro he
    obtain rfl | ⟨l', a, rfl⟩ := l.eq_nil_or_concat'
    · rfl
    · rw [hl.pred_tail_concat] at he
      exact absurd (he ▸ List.mem_append_right l' (List.mem_singleton_self a)) hl.notMem_head
  · rintro rfl
    exact hl.pred_tail_nil

omit [DecidableEq ι] in
/-- A node on a list records its neighbours on it. -/
theorem neighbours (hl : Linked nil L h (u ++ a :: w)) :
    L.pred a ∈ h.head :: u ∧ L.succ a ∈ w ++ [h.tail] := by
  have hc := hl.next
  rw [Header.nodes, List.append_assoc, List.cons_append, ← List.cons_append] at hc
  obtain ⟨-, hw, hu⟩ := List.isChain_append.1 hc
  constructor
  · rw [(hu _ (List.getLast?_eq_some_getLast (List.cons_ne_nil h.head u)) a rfl).2]
    exact List.getLast_mem _
  · obtain ⟨y, w', he⟩ := List.exists_cons_of_ne_nil (List.append_ne_nil_of_right_ne_nil w (List.cons_ne_nil h.tail []))
    rw [he] at hw ⊢
    rw [(List.isChain_cons_cons.1 hw).1.1]
    exact List.mem_cons_self

/-! ## What is on the list is determined -/

omit [DecidableEq ι] in
theorem isChain_unique {y : ι} : ∀ {l l' : List ι} {x : ι}, (x :: (l ++ [y])).IsChain L.Next →
    (x :: (l' ++ [y])).IsChain L.Next → y ∉ l → y ∉ l' → l = l'
  | [], [], _, _, _, _, _ => rfl
  | [], b :: l', x, hc, hc', _, hy' => by
    have h₁ := (List.isChain_cons_cons.1 hc).1.1
    have h₂ := (List.isChain_cons_cons.1 hc').1.1
    exact absurd (h₁.symm.trans h₂ ▸ List.mem_cons_self) hy'
  | a :: l, [], x, hc, hc', hy, _ => by
    have h₁ := (List.isChain_cons_cons.1 hc).1.1
    have h₂ := (List.isChain_cons_cons.1 hc').1.1
    exact absurd (h₂.symm.trans h₁ ▸ List.mem_cons_self) hy
  | a :: l, b :: l', x, hc, hc', hy, hy' => by
    obtain ⟨h₁, hc⟩ := List.isChain_cons_cons.1 hc
    obtain ⟨h₂, hc'⟩ := List.isChain_cons_cons.1 hc'
    have he : a = b := h₁.1.symm.trans h₂.1
    subst he
    rw [isChain_unique hc hc' (fun hm => hy (List.mem_cons_of_mem _ hm)) fun hm => hy' (List.mem_cons_of_mem _ hm)]

omit [DecidableEq ι] in
theorem unique (hl : Linked nil L h l) (hl' : Linked nil L h l') : l = l' :=
  isChain_unique hl.next hl'.next hl.notMem_tail hl'.notMem_tail

/-! ## Links elsewhere do not matter -/

omit [DecidableEq ι] in
theorem congr (hl : Linked nil L h l) (hs : ∀ b ∈ h.nodes l, L'.succ b = L.succ b)
    (hp : ∀ b ∈ h.nodes l, L'.pred b = L.pred b) : Linked nil L' h l where
  next := hl.next.imp_of_mem_imp fun b c hb hc hn => ⟨(hs b hb).trans hn.1, (hp c hc).trans hn.2⟩
  nodup := hl.nodup
  last := (hs h.tail (by simp)).trans hl.last
  ne_nil := hl.ne_nil

theorem join_other {a b : ι} (hl : Linked nil L h l) (ha : a ∉ h.nodes l) (hb : b ∉ h.nodes l) :
    Linked nil (L.join a b) h l :=
  hl.congr (fun _ hc => join_succ_of_ne fun he => ha (he ▸ hc)) fun _ hc => join_pred_of_ne fun he => hb (he ▸ hc)

/-- **Removing a node leaves a list alone** that neither of its recorded neighbours is on. -/
theorem remove_other (hl : Linked nil L h l) (hp : L.pred a ∉ h.nodes l) (hs : L.succ a ∉ h.nodes l) :
    Linked nil (L.remove a) h l := hl.join_other hp hs

theorem addTail_other (hl : Linked nil L h l) (ha : a ∉ h.nodes l) (ht : h'.tail ∉ h.nodes l)
    (hp : L.pred h'.tail ∉ h.nodes l) : Linked nil (L.addTail h' a) h l :=
  (hl.join_other ha ht).join_other hp ha

theorem newList_other (hl : Linked nil L h l) (hh : h'.head ∉ h.nodes l) (ht : h'.tail ∉ h.nodes l) :
    Linked nil (L.newList nil h') h l :=
  (hl.join_other hh ht).congr (fun _ hc => Function.update_of_ne (fun he => ht (by rw [← he]; exact hc)) ..) fun _ _ => rfl

/-! ## The operations -/

theorem newList (L : Links ι) (hne : h.head ≠ h.tail) (hh : nil ≠ h.head) (ht : nil ≠ h.tail) :
    Linked nil (L.newList nil h) h [] where
  next := by
    refine List.isChain_pair.2 ⟨?_, ?_⟩
    · exact (Function.update_of_ne hne ..).trans join_succ_self
    · exact join_pred_self
  nodup := List.nodup_cons.2 ⟨fun hm => hne (List.mem_singleton.1 hm), List.nodup_singleton _⟩
  last := Function.update_self ..
  ne_nil hm := by
    obtain he | hm := List.mem_cons.1 hm
    · exact hh he
    · exact ht (List.mem_singleton.1 hm)

theorem addTail (hl : Linked nil L h l) (ha : a ∉ h.nodes l) (hnil : a ≠ nil) :
    Linked nil (L.addTail h a) h (l ++ [a]) := by
  have hc := hl.next
  have hnd := hl.nodup
  have hne := hl.ne_nil
  have hlast := hl.last
  have hperm : (h.nodes (l ++ [a])).Perm (a :: h.nodes l) := by
    unfold Header.nodes
    rw [List.append_assoc]
    exact (List.perm_middle.cons h.head).trans (.swap a h.head _)
  have hpt := hl.pred_tail
  have hat : a ≠ h.tail := fun he => ha (by simp [he])
  have hxa : L.pred h.tail ≠ a := fun he => ha (by
    rw [← he]
    exact List.mem_append_left [h.tail] hpt)
  have hxt : L.pred h.tail ≠ h.tail := fun he => by
    rw [he] at hpt
    obtain he | hm := List.mem_cons.1 hpt
    · exact hl.head_ne_tail he.symm
    · exact hl.notMem_tail hm
  constructor
  · rw [Header.nodes, ← List.cons_append, List.isChain_append] at hc
    rw [Header.nodes, List.append_assoc, ← List.cons_append, List.isChain_append]
    obtain ⟨hcl, -, hx⟩ := hc
    have hx : ∀ x ∈ (h.head :: l).getLast?, x = L.pred h.tail := fun x hm => (hx x hm h.tail rfl).2.symm
    refine ⟨hcl.imp_of_mem_imp fun b c hb hc' hn => ?_, ?_, fun x hm y hy => ?_⟩
    · have hca : c ≠ a := fun he => ha (by rw [← he]; exact List.mem_append_left [h.tail] hc')
      have hba : b ≠ a := fun he => ha (by rw [← he]; exact List.mem_append_left [h.tail] hb)
      have hct : c ≠ h.tail := fun he => by
        rw [he] at hc'
        obtain he | hm := List.mem_cons.1 hc'
        · exact hl.head_ne_tail he.symm
        · exact hl.notMem_tail hm
      -- the last node had the end of the list as its successor, which is none of the nodes
      have hbx : b ≠ L.pred h.tail := fun he => by
        rw [he] at hn
        exact hct (hn.1.symm.trans hl.succ_pred_tail)
      constructor
      · rw [Links.addTail, join_succ_of_ne hbx, join_succ_of_ne hba]
        exact hn.1
      · rw [Links.addTail, join_pred_of_ne hca, join_pred_of_ne hct]
        exact hn.2
    · refine List.isChain_pair.2 ⟨?_, ?_⟩
      · rw [Links.addTail, join_succ_of_ne hxa.symm, join_succ_self]
      · rw [Links.addTail, join_pred_of_ne hat.symm, join_pred_self]
    · rw [hx x hm]
      cases hy
      exact next_join
  · rw [hperm.nodup_iff]
    exact List.nodup_cons.2 ⟨ha, hnd⟩
  · rw [Links.addTail, join_succ_of_ne hxt.symm, join_succ_of_ne hat.symm]
    exact hlast
  · rw [hperm.mem_iff, List.mem_cons]
    rintro (he | hm)
    · exact hnil he.symm
    · exact hne hm

theorem remove (hl : Linked nil L h (u ++ a :: w)) : Linked nil (L.remove a) h (u ++ w) := by
  have hc := hl.next
  have hnd := hl.nodup
  have hsplit : ∀ v, h.nodes (u ++ v) = (h.head :: u) ++ (v ++ [h.tail]) := fun v => by
    rw [Header.nodes, List.append_assoc, ← List.cons_append]
  rw [hsplit] at hc hnd
  obtain ⟨hcu, hcw, hx⟩ := List.isChain_append.1 hc
  obtain ⟨hcw', hwc⟩ := List.isChain_cons.1 hcw
  obtain ⟨hndu, hndw, hdisj⟩ := List.nodup_append.1 hnd
  obtain ⟨haw, hndw⟩ := List.nodup_cons.1 hndw
  have hx : ∀ x ∈ (h.head :: u).getLast?, x = L.pred a ∧ L.succ x = a := fun x hm =>
    ⟨(hx x hm a rfl).2.symm, (hx x hm a rfl).1⟩
  have hy : ∀ y ∈ (w ++ [h.tail]).head?, y = L.succ a ∧ L.pred y = a := fun y hm =>
    ⟨(hcw' y hm).1.symm, (hcw' y hm).2⟩
  obtain ⟨hp, hs⟩ := hl.neighbours
  have hsa : L.succ (L.pred a) = a := by
    obtain ⟨x, hm⟩ := Option.isSome_iff_exists.1 (List.getLast?_isSome.2 (List.cons_ne_nil h.head u))
    rw [← (hx x hm).1]
    exact (hx x hm).2
  have hpa : L.pred (L.succ a) = a := by
    have hne : w ++ [h.tail] ≠ [] := List.append_ne_nil_of_right_ne_nil w (List.cons_ne_nil h.tail [])
    obtain ⟨y, hm⟩ := Option.isSome_iff_exists.1 (List.isSome_head?.2 hne)
    rw [← (hy y hm).1]
    exact (hy y hm).2
  have hau : a ∉ h.head :: u := fun hm => hdisj a hm a List.mem_cons_self rfl
  have hdisj' : ∀ b ∈ h.head :: u, ∀ c ∈ w ++ [h.tail], b ≠ c :=
    fun b hb c hc => hdisj b hb c (List.mem_cons_of_mem a hc)
  constructor
  · rw [hsplit, List.isChain_append]
    refine ⟨hcu.imp_of_mem_imp fun b c hb hc hn => ⟨?_, ?_⟩, hwc.imp_of_mem_imp fun b c hb hc hn => ⟨?_, ?_⟩,
      fun x hm y hm' => ?_⟩
    · refine (join_succ_of_ne fun he => hau ?_).trans hn.1
      rw [← hsa, ← he, hn.1]
      exact hc
    · exact (join_pred_of_ne (hdisj' c hc _ hs)).trans hn.2
    · exact (join_succ_of_ne (hdisj' _ hp b hb).symm).trans hn.1
    · refine (join_pred_of_ne fun he => haw ?_).trans hn.2
      rw [← hpa, ← he, hn.2]
      exact hb
    · rw [(hx x hm).1, (hy y hm').1]
      exact next_join
  · rw [hsplit, List.nodup_append]
    exact ⟨hndu, hndw, hdisj'⟩
  · refine (join_succ_of_ne ?_).trans hl.last
    exact (hdisj' _ hp h.tail (List.mem_append_right _ (List.mem_singleton_self _))).symm
  · intro hm
    apply hl.ne_nil
    rw [hsplit] at hm ⊢
    obtain hm | hm := List.mem_append.1 hm
    · exact List.mem_append_left _ hm
    · exact List.mem_append_right _ (List.mem_cons_of_mem a hm)

/-- The first node is removed. -/
theorem remHead (hl : Linked nil L h (a :: w)) : L.remHead nil h = (some a, L.remove a) := by
  obtain ⟨hp, hs⟩ := neighbours (u := []) hl
  have hpa : L.pred a = h.head := List.mem_singleton.1 hp
  have hsh : L.succ h.head = a := (List.isChain_cons_cons.1 hl.next).1.1
  have hne : L.succ a ≠ nil := fun he => hl.ne_nil (by
    rw [← he, Header.nodes]
    exact List.mem_cons_of_mem _ (List.mem_cons_of_mem _ hs))
  unfold Links.remHead Links.remove
  rw [hsh, hpa]
  exact if_neg hne

end Linked

end ProgLib
