import AmiPiBorg.Lib.Lists
import AmiPiBorg.Lib.Runs
import AmiPiBorg.Client.Defs

/-!
# Aborting a request (`library/io.c`)

A request is a message, and so a node of at most one list: the message list of a port or the request queue of a
connection. `APB_Abort` takes it for linked if its links are not both null. But no operation on lists clears the links of
the node that it takes off.

So the links of a request that was sent once still name the nodes that were next to it last. `abort` makes these two
neighbours, whatever has come between them since (`abort_lists`).
-/

set_option autoImplicit false

namespace AmiPiBorg.Client

open ProgLib

variable {ι κ : Type} [DecidableEq ι] [DecidableEq κ] {nil n : ι} {L : Links ι} {S : Set κ} {h : κ → Header ι}
  {q : κ → List ι}

/-- `APB_Abort`. -/
def abort (nil : ι) (L : Links ι) (n : ι) : Links ι := if L.pred n ≠ nil ∨ L.succ n ≠ nil then L.remove n else L

/-- The request is on none of the lists. -/
def Idle (S : Set κ) (q : κ → List ι) (n : ι) : Prop := ∀ k ∈ S, n ∉ q k

/-- A request on no list leaves every list as it is, and one on a list leaves exactly that list. -/
def AbortsAlone (nil : ι) (L : Links ι) (S : Set κ) (h : κ → Header ι) (q : κ → List ι) (n : ι) : Prop :=
  (Idle S q n → Lists nil (abort nil L n) S h q) ∧
    ∀ k ∈ S, ∀ u w, q k = u ++ n :: w → Lists nil (abort nil L n) S h (Function.update q k (u ++ w))

/-- The links are null, or what they name on a list is still next to the other. -/
def Harmless (nil : ι) (L : Links ι) (S : Set κ) (h : κ → Header ι) (q : κ → List ι) (n : ι) : Prop :=
  L.pred n = nil ∧ L.succ n = nil ∨ ∀ k ∈ S, (L.pred n ∈ (h k).nodes (q k) → L.succ (L.pred n) = L.succ n) ∧
    (L.succ n ∈ (h k).nodes (q k) → L.pred (L.succ n) = L.pred n)

omit [DecidableEq κ] in
theorem abort_idle (hq : Lists nil L S h q) :
    Lists nil (abort nil L n) S h q ↔ Harmless nil L S h q n := by
  by_cases hn : L.pred n = nil ∧ L.succ n = nil
  · rw [abort, if_neg (by simp [hn])]
    exact iff_of_true hq (.inl hn)
  · rw [abort, if_pos (by tauto), hq.remove_iff]
    exact ⟨.inr, fun ho => ho.resolve_left hn⟩

theorem abort_linked (hq : Lists nil L S h q) {k : κ} (hk : k ∈ S) {u w : List ι} (he : q k = u ++ n :: w) :
    Lists nil (abort nil L n) S h (Function.update q k (u ++ w)) := by
  have hl := hq.linked k hk
  rw [he] at hl
  rw [abort, if_pos (.inr hl.succ_ne_nil)]
  exact hq.remove hk he

/-- **What `APB_Abort` does to the lists.** It takes the request off the list that it is on, if any, and does nothing
else, if and only if the request is on a list, or has null links, or has links to nodes that are still neighbours. -/
theorem abort_lists (hq : Lists nil L S h q) : AbortsAlone nil L S h q n ↔ (Idle S q n → Harmless nil L S h q n) := by
  constructor
  · intro ha hi
    exact (abort_idle hq).1 (ha.1 hi)
  · intro ho
    exact ⟨fun hi => (abort_idle hq).2 (ho hi), fun k hk u w he => abort_linked hq hk he⟩

/-! ## Runs -/

/-- What is done to the message lists. -/
inductive MsgOp (ι κ : Type) where
  /-- `PutMsg`, `ReplyMsg` and `AddTail`. -/
  | put (k : κ) (n : ι)
  /-- `GetMsg` and `RemHead`. -/
  | get (k : κ)
  | abort (n : ι)

/-- The links, and what should be on the lists. -/
structure Mail (ι κ : Type) where
  links : Links ι
  /-- Ghost. -/
  lists : κ → List ι

namespace Mail

/-- One operation. What `GetMsg` returns is the head of the list. -/
def step (nil : ι) (h : κ → Header ι) (m : Mail ι κ) : MsgOp ι κ → Option (Mail ι κ)
  | .put k n => some ⟨m.links.addTail (h k) n, Function.update m.lists k (m.lists k ++ [n])⟩
  | .get k => some ⟨(m.links.remHead nil (h k)).2, Function.update m.lists k (m.lists k).tail⟩
  | .abort n => some ⟨Client.abort nil m.links n, fun k => (m.lists k).erase n⟩

/-- A message is put on a list when it is on none. -/
def Legal (nil : ι) (S : Set κ) (h : κ → Header ι) (m : Mail ι κ) : MsgOp ι κ → Prop
  | .put k n => k ∈ S ∧ n ≠ nil ∧ Idle S m.lists n ∧ ∀ k ∈ S, n ≠ (h k).head ∧ n ≠ (h k).tail
  | .get k => k ∈ S
  | .abort _ => True

/-- A request that is aborted on no list has links that do no harm. -/
def Calm (nil : ι) (S : Set κ) (h : κ → Header ι) (m : Mail ι κ) : MsgOp ι κ → Prop
  | .abort n => Idle S m.lists n → Harmless nil m.links S h m.lists n
  | _ => True

/-- The lists are what they should be after the operation. -/
def Right (nil : ι) (S : Set κ) (h : κ → Header ι) (m : Mail ι κ) (op : MsgOp ι κ) : Prop :=
  ∀ m', step nil h m op = some m' → Lists nil m'.links S h m'.lists

theorem erase_linked (hq : Lists nil L S h q) {k : κ} (hk : k ∈ S) {u w : List ι} (he : q k = u ++ n :: w) :
    ∀ j ∈ S, (q j).erase n = Function.update q k (u ++ w) j := by
  intro j hj
  have hn := hq.notMem_removed hk he j hj
  by_cases hjk : j = k
  · rw [hjk, Function.update_self] at hn ⊢
    rw [he, List.erase_append_right, List.erase_cons_head]
    exact fun hm => hn (by simp [hm])
  · rw [Function.update_of_ne hjk] at hn ⊢
    exact List.erase_of_not_mem fun hm => hn (by simp [hm])

/-- An operation on intact lists does what it should, unless it is an abort that does harm. -/
theorem right_iff {m : Mail ι κ} {op : MsgOp ι κ} (hq : Lists nil m.links S h m.lists) (hl : Legal nil S h m op) :
    Right nil S h m op ↔ Calm nil S h m op := by
  cases op with
  | put k n =>
    obtain ⟨hk, hn, hi, hh⟩ := hl
    refine iff_of_true (fun m' hm => ?_) trivial
    cases hm
    refine hq.addTail hk (fun j hj hm => ?_) hn
    obtain hm | hm | hm := Header.mem_nodes.1 hm
    · exact (hh j hj).1 hm
    · exact hi j hj hm
    · exact (hh j hj).2 hm
  | get k =>
    refine iff_of_true (fun m' hm => ?_) trivial
    cases hm
    have hk := hq.linked k hl
    cases he : m.lists k with
    | nil =>
      rw [he] at hk
      have hs : m.links.remHead nil (h k) = (none, m.links) := by
        rw [Links.remHead, hk.succ_head]
        exact if_pos hk.last
      simp only [hs]
      refine hq.congr fun j _ => ?_
      by_cases hjk : j = k
      · rw [hjk, Function.update_self, he, List.tail_nil]
      · exact Function.update_of_ne hjk ..
    | cons a w =>
      rw [he] at hk
      simp only [hk.remHead]
      exact hq.remove hl (u := []) he
  | abort n =>
    have hr : Right nil S h m (.abort n) ↔ Lists nil (Client.abort nil m.links n) S h fun k => (m.lists k).erase n :=
      ⟨fun hr => hr _ rfl, fun hr m' hm => by
        cases hm
        exact hr⟩
    rw [hr]
    by_cases hi : Idle S m.lists n
    · have he : ∀ k ∈ S, (m.lists k).erase n = m.lists k := fun k hk => List.erase_of_not_mem (hi k hk)
      constructor
      · intro hl _
        exact (abort_idle hq).1 (hl.congr fun k hk => (he k hk).symm)
      · intro hc
        exact ((abort_idle hq).2 (hc hi)).congr he
    · refine iff_of_true ?_ fun hi' => absurd hi' hi
      obtain ⟨k, hk, hm⟩ : ∃ k ∈ S, n ∈ m.lists k := by simpa [Idle] using hi
      obtain ⟨u, w, he⟩ := List.append_of_mem hm
      exact (abort_linked hq hk he).congr (erase_linked hq hk he)

theorem lists_step {m m' : Mail ι κ} {op : MsgOp ι κ} (hq : Lists nil m.links S h m.lists) (hl : Legal nil S h m op)
    (hc : Calm nil S h m op) (hs : step nil h m op = some m') : Lists nil m'.links S h m'.lists :=
  (right_iff hq hl).2 hc m' hs

theorem lists_runs {m t : Mail ι κ} {ops : List (MsgOp ι κ)} (hq : Lists nil m.links S h m.lists)
    (ha : Along (fun m op => Legal nil S h m op ∧ Calm nil S h m op) (step nil h) m ops)
    (ht : runs (step nil h) m ops = some t) : Lists nil t.links S h t.lists :=
  runs_inv (fun m => Lists nil m.links S h m.lists) (fun _ _ _ hq hl hs => lists_step hq hl.1 hl.2 hs) hq ha ht

/-- **The lists through a run.** Whatever is put on them, taken from them and aborted, the lists stay what they should be if
and only if no abort of a request that is on no list does harm. -/
theorem right_along {m : Mail ι κ} {ops : List (MsgOp ι κ)} (hq : Lists nil m.links S h m.lists)
    (hl : Along (Legal nil S h) (step nil h) m ops) :
    Along (Right nil S h) (step nil h) m ops ↔ Along (Calm nil S h) (step nil h) m ops :=
  along_iff (fun m => Lists nil m.links S h m.lists) (fun _ _ hq hl => right_iff hq hl)
    (fun _ _ _ hq hl hc hs => lists_step hq hl hc hs) hq hl

end Mail

/-! ## A message that is lost -/

/-- The header of the one port's message list. -/
def onePort (_ : Unit) : Header Nat := ⟨1, 2⟩

/-- The port has no messages. -/
def emptyPort : Mail Nat Unit := ⟨Links.newList 0 ⟨fun _ => 0, fun _ => 0⟩ (onePort ()), fun _ => []⟩

theorem lists_emptyPort : Lists 0 emptyPort.links Set.univ onePort emptyPort.lists where
  linked _ _ := Linked.newList _ (by decide) (by decide) (by decide)
  first _ _ := rfl
  disjoint _ _ _ _ hne := absurd rfl hne

/-- Request 10 comes back and is taken from the port. Then request 20 comes back. -/
def secondBack : List (MsgOp Nat Unit) := [.put () 10, .get (), .put () 20]

theorem secondBack_calm :
    Along (fun m op => Mail.Legal 0 Set.univ onePort m op ∧ Mail.Calm 0 Set.univ onePort m op) (Mail.step 0 onePort)
      emptyPort secondBack := by
  refine ⟨⟨⟨trivial, by decide, fun _ _ => List.not_mem_nil, fun _ _ => by simp [onePort]⟩, trivial⟩, fun m hm => ?_⟩
  cases hm
  refine ⟨⟨trivial, trivial⟩, fun m hm => ?_⟩
  cases hm
  refine ⟨⟨⟨trivial, by decide, fun k _ => ?_, fun _ _ => by simp [onePort]⟩, trivial⟩, fun _ _ => trivial⟩
  simp [emptyPort]

/-- The first request is aborted, and the port loses the second one. -/
theorem abort_takes_other : ∃ m, runs (Mail.step 0 onePort) emptyPort secondBack = some m ∧
    Lists 0 m.links Set.univ onePort m.lists ∧ Idle Set.univ m.lists 10 ∧
      ¬AbortsAlone 0 m.links Set.univ onePort m.lists 10 := by
  refine ⟨_, rfl, Mail.lists_runs lists_emptyPort secondBack_calm rfl, fun _ _ => ?_, fun ha => ?_⟩
  · simp [emptyPort]
  · have hq := ha.1 fun _ _ => by simp [emptyPort]
    have hs := (hq.linked () trivial).succ_head
    simp [emptyPort] at hs
    exact absurd hs (by decide)

/-- The second request is aborted, which leaves the port empty. -/
theorem abort_on_port : ∃ m, runs (Mail.step 0 onePort) emptyPort secondBack = some m ∧ m.lists () = [20] ∧
    AbortsAlone 0 m.links Set.univ onePort m.lists 20 ∧
    Lists 0 (abort 0 m.links 20) Set.univ onePort (Function.update m.lists () []) := by
  obtain ⟨m, hm, hlist⟩ : ∃ m, runs (Mail.step 0 onePort) emptyPort secondBack = some m ∧ m.lists () = [20] :=
    ⟨_, rfl, by simp [emptyPort]⟩
  have halone : AbortsAlone 0 m.links Set.univ onePort m.lists 20 :=
    (abort_lists (Mail.lists_runs lists_emptyPort secondBack_calm hm)).2 fun hi =>
      absurd (hlist ▸ List.mem_singleton_self 20) (hi () trivial)
  exact ⟨m, hm, hlist, halone, halone.2 () trivial [] [] hlist⟩

end AmiPiBorg.Client
