import AmiPiBorg.Reader.Effects

/-!
# `APB_AppendBuffer`

With a chain `l` from `pr_InBuf`, appending a buffer changes nothing if it is on the chain already (`append_old`) and
otherwise gives `appended`: a new `InBuffer` at the end of `l`, with `ib_CanRelease` set on all of `l` (`append_new`).
Both loops end, as they walk along the chain.
-/

set_option autoImplicit false

namespace AmiPiBorg.Reader

open ProgLib

variable {s : Reader} {al : Alloc} {l : List IbPtr} {b : BufPtr} {ib : IbPtr} {fuel : Nat}

/-! ## The loops -/

/-- The first loop finds the buffer exactly if it is on the chain. -/
theorem findTurn_run (s : Reader) (b : BufPtr) : ∀ (l : List IbPtr) {p : Option IbPtr} {fuel : Nat},
    Chain s.next p l → l.length < fuel →
      Loop.run (s.findTurn b) fuel p = some (decide (∃ a ∈ l, (s.ibs a).buf = b))
  | [], p, fuel, hc, hf => by
    obtain ⟨f, rfl⟩ : ∃ f, fuel = f + 1 := ⟨fuel - 1, by simp at hf; omega⟩
    rw [Chain.nil_iff.1 hc, Loop.run_done (r := false) rfl]
    simp
  | a :: l, p, fuel, hc, hf => by
    obtain ⟨f, rfl⟩ : ∃ f, fuel = f + 1 := ⟨fuel - 1, by simp at hf; omega⟩
    rw [hc.1]
    by_cases h : (s.ibs a).buf = b
    · rw [Loop.run_done (r := true) (by simp only [findTurn, if_pos h])]
      simp [h]
    · rw [Loop.run_again (show s.findTurn b (some a) = some (.again (s.next a)) by simp only [findTurn, if_neg h]),
        findTurn_run s b l hc.2 (by simp at hf; omega)]
      simp [h]

/-- `ib_CanRelease` set on the nodes `l`. -/
def marked (s : Reader) (l : List IbPtr) : Reader :=
  { s with ibs := fun a => if a ∈ l then { s.ibs a with canRelease := true } else s.ibs a }

theorem next_marked : (s.marked l).next = s.next := by
  funext a
  simp only [next, marked]
  split <;> rfl

theorem allowRelease_marked (s : Reader) (a : IbPtr) (l : List IbPtr) :
    (s.marked l).allowRelease a = s.marked (a :: l) := by
  simp only [allowRelease, setIb, marked, Reader.mk.injEq, and_true, true_and]
  funext c
  rw [Function.update_apply]
  by_cases h : c = a
  · subst h
    rw [if_pos rfl, if_pos List.mem_cons_self]
    split <;> rfl
  · rw [if_neg h]
    simp only [List.mem_cons, h, false_or]

theorem marked_congr {l l' : List IbPtr} (h : ∀ a, a ∈ l ↔ a ∈ l') : s.marked l = s.marked l' := by
  simp only [marked, h]

/-- The second loop marks the rest of the chain and stops at the last node. -/
theorem markTurn_run (s : Reader) : ∀ (l m : List IbPtr) {a : IbPtr} {fuel : Nat},
    Chain s.next (some a) (a :: l) → l.length < fuel → Loop.run markTurn fuel (s.marked m, a) =
      some (s.marked (l ++ m), (a :: l).getLast (List.cons_ne_nil a l))
  | [], m, a, fuel, hc, hf => by
    obtain ⟨f, rfl⟩ : ∃ f, fuel = f + 1 := ⟨fuel - 1, by simp at hf; omega⟩
    have hn : ((s.marked m).ibs a).next = none := (congrFun next_marked a).trans (Chain.nil_iff.1 hc.2)
    rw [Loop.run_done (r := (s.marked m, a)) (by simp only [markTurn, hn])]
    rfl
  | c :: l, m, a, fuel, hc, hf => by
    obtain ⟨f, rfl⟩ : ∃ f, fuel = f + 1 := ⟨fuel - 1, by simp at hf; omega⟩
    have hn : ((s.marked m).ibs a).next = some c := (congrFun next_marked a).trans hc.2.1
    have hturn : markTurn (s.marked m, a) = some (.again (s.marked (c :: m), c)) := by
      simp only [markTurn, hn, allowRelease_marked]
    rw [Loop.run_again hturn,
      markTurn_run s l (c :: m) ⟨rfl, hc.2.2⟩ (by simp at hf; omega)]
    simp only [List.getLast_cons_cons, Option.some_inj, Prod.mk.injEq, and_true]
    exact marked_congr fun x => by simp [or_left_comm]

/-! ## The effect -/

/-- The reader with a new `InBuffer` at the end of its chain `l`. -/
def appended (s : Reader) (l : List IbPtr) (ib : IbPtr) (b : BufPtr) : Reader :=
  { s with
    inBuf := some (s.inBuf.getD ib)
    ibUse := ib :: s.ibUse
    ibs := fun a =>
      if a = ib then { buf := b, next := none, offset := 0, packetCount := 0, canRelease := false }
      else if a ∈ l then
        { s.ibs a with canRelease := true, next := if l.getLast? = some a then some ib else (s.ibs a).next }
      else s.ibs a }

theorem append_old (hc : Chain s.next s.inBuf l) (hf : l.length < fuel) (h : ∃ a ∈ l, (s.ibs a).buf = b) :
    s.appendBuffer fuel al b = some (s, true) := by
  simp only [appendBuffer, findTurn_run s b l hc hf, h, decide_true, Option.bind_some]

theorem append_fails (hc : Chain s.next s.inBuf l) (hf : l.length < fuel) (h : ∀ a ∈ l, (s.ibs a).buf ≠ b)
    (hal : al.inBuffer s = none) : s.appendBuffer fuel al b = some (s, false) := by
  have hn : ¬∃ a ∈ l, (s.ibs a).buf = b := fun ⟨a, ha, hb⟩ => h a ha hb
  simp only [appendBuffer, findTurn_run s b l hc hf, hn, decide_false, Option.bind_some, hal]

theorem append_new (hc : Chain s.next s.inBuf l) (hf : l.length < fuel) (h : ∀ a ∈ l, (s.ibs a).buf ≠ b)
    (hal : al.inBuffer s = some ib) (hib : ib ∉ l) :
    s.appendBuffer fuel al b = some (s.appended l ib b, true) := by
  have hn : ¬∃ a ∈ l, (s.ibs a).buf = b := fun ⟨a, ha, hb⟩ => h a ha hb
  simp only [appendBuffer, findTurn_run s b l hc hf, hn, decide_false, Option.bind_some, hal]
  cases l with
  | nil =>
    rw [Chain.nil_iff.1 hc]
    simp only [Option.some_inj, Prod.mk.injEq, and_true, newInBuffer, setIb, appended, Chain.nil_iff.1 hc,
      Option.getD_none, Reader.mk.injEq, true_and]
    funext c
    simp [Function.update_apply]
  | cons a l =>
    rw [hc.1]
    simp only
    have hne : ∀ c ∈ a :: l, c ≠ ib := fun c hm he => hib (he ▸ hm)
    have hnext : ∀ c ∈ a :: l, (s.newInBuffer ib b).next c = s.next c := fun c hm => by
      simp only [next, newInBuffer]
      rw [ibs_setIb_of_ne _ (hne c hm)]
    have hc' : Chain (s.newInBuffer ib b).next (some a) (a :: l) :=
      Chain.congr (show Chain s.next (some a) (a :: l) from ⟨rfl, hc.2⟩) hnext
    have ha : (s.newInBuffer ib b).allowRelease a = (s.newInBuffer ib b).marked [a] := by
      rw [← allowRelease_marked]
      simp [marked]
    rw [ha, markTurn_run (s.newInBuffer ib b) l [a] hc' (by simp at hf; omega),
      marked_congr (show ∀ x, x ∈ l ++ [a] ↔ x ∈ a :: l from fun x => by simp [or_comm])]
    simp only [Option.map_some, Option.some_inj, Prod.mk.injEq, and_true]
    have hl := List.getLast?_eq_some_getLast (List.cons_ne_nil a l)
    generalize (a :: l).getLast (List.cons_ne_nil a l) = last at hl
    have hmem : last ∈ a :: l := List.mem_of_getLast? hl
    simp only [setNext, setIb, marked, newInBuffer, appended, Reader.mk.injEq, true_and, and_true, hc.1,
      Option.getD_some, hl, Option.some_inj]
    funext c
    simp only [Function.update_apply]
    by_cases h₁ : c = ib
    · subst h₁
      simp only [if_neg (hne last hmem).symm, if_neg hib, if_true]
    · by_cases h₂ : c = last
      · subst h₂
        simp only [if_true, if_neg h₁, if_pos hmem]
      · simp only [if_neg h₁, if_neg h₂, if_neg (Ne.symm h₂)]

/-- Whatever the links are, only the `InBuffer` objects and the head of the chain change. -/
theorem append_keeps {α : Type} {f : Reader → α} {r : Reader × Bool}
    (hf : ∀ (t : Reader) p ibs use, f { t with inBuf := p, ibs := ibs, ibUse := use } = f t)
    (h : s.appendBuffer fuel al b = some r) : f r.1 = f s := by
  simp only [appendBuffer] at h
  obtain ⟨found, -, h⟩ := Option.bind_eq_some_iff.1 h
  cases found with
  | true =>
    cases h
    rfl
  | false =>
    dsimp only at h
    split at h
    · cases h
      rfl
    · split at h
      · cases h
        exact hf s _ _ _
      · obtain ⟨q, hq, rfl⟩ := Option.map_eq_some_iff.1 h
        have hlast : f q.1 = f s := by
          refine Loop.run_inv (fun t : Reader × IbPtr => f t.1 = f s) (fun q : Reader × IbPtr => f q.1 = f s) ?_ ?_
            (hf s _ _ _) hq
          all_goals
            rintro ⟨t, p⟩ u ht hu
            simp only [markTurn, Option.some.injEq] at hu
            split at hu <;> cases hu
          · exact (hf t _ _ _).trans ht
          · exact ht
        exact (hf q.1 _ _ _).trans hlast

/-- No `Buffer` is changed or freed. -/
theorem append_bufs {r : Reader × Bool} (h : s.appendBuffer fuel al b = some r) :
    r.1.bufs = s.bufs ∧ r.1.bufUse = s.bufUse :=
  ⟨append_keeps (fun _ _ _ _ => rfl) h, append_keeps (fun _ _ _ _ => rfl) h⟩

theorem append_queue {r : Reader × Bool} (h : s.appendBuffer fuel al b = some r) : r.1.queue = s.queue :=
  append_keeps (fun _ _ _ _ => rfl) h

/-! ## The appended chain -/

theorem ibs_appended_new : (s.appended l ib b).ibs ib =
    { buf := b, next := none, offset := 0, packetCount := 0, canRelease := false } := if_pos rfl

theorem ibs_appended_off {a : IbPtr} (h₁ : a ≠ ib) (h₂ : a ∉ l) : (s.appended l ib b).ibs a = s.ibs a := by
  simp only [appended, if_neg h₁, if_neg h₂]

theorem ibs_appended_on {a : IbPtr} (hib : ib ∉ l) (ha : a ∈ l) : (s.appended l ib b).ibs a =
    { s.ibs a with canRelease := true, next := if l.getLast? = some a then some ib else (s.ibs a).next } := by
  have h : a ≠ ib := fun he => hib (he ▸ ha)
  simp only [appended, if_neg h, if_pos ha]

/-- The chain after an append. -/
theorem chain_appended (hc : Chain s.next s.inBuf l) (hib : ib ∉ l) :
    Chain (s.appended l ib b).next (s.appended l ib b).inBuf (l ++ [ib]) := by
  rcases List.eq_nil_or_concat l with rfl | ⟨m, last, rfl⟩
  · refine ⟨?_, congrArg InBuffer.next ibs_appended_new⟩
    simp only [appended, Chain.nil_iff.1 hc, Option.getD_none]
  · rw [List.concat_eq_append] at *
    have hi : (s.appended (m ++ [last]) ib b).inBuf = s.inBuf := by
      obtain ⟨p, hp⟩ : ∃ p, s.inBuf = some p := by
        rw [hc.head]
        cases m <;> simp
      simp only [appended, hp, Option.getD_some]
    rw [hi, List.append_assoc]
    have hnd := hc.nodup
    refine Chain.snoc hc hib (congrArg InBuffer.next ibs_appended_new) ?_ fun a ha => ?_
    · show ((s.appended _ ib b).ibs last).next = some ib
      rw [ibs_appended_on hib (by simp)]
      simp
    · show ((s.appended _ ib b).ibs a).next = (s.ibs a).next
      rw [ibs_appended_on hib (by simp [ha]), if_neg]
      rw [List.getLast?_append, List.getLast?_singleton]
      rintro ⟨⟩
      simp [List.nodup_append] at hnd
      exact hnd.2 _ ha rfl

end AmiPiBorg.Reader
