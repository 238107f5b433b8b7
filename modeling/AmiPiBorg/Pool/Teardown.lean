import AmiPiBorg.Pool.Invariant

/-!
# Taking an object pool down

`APB_DestroyObjectType` frees as many instances as there are, but takes them from the list, on which those in use are
not. So it frees every listed instance, and then the null pointer as often as an instance is in use (`destroyed`). The
whole pool comes to its end all the same, with everything that it has freed once, and the null pointer is freed if and
only if something was in use (`freeObjectPool_safe`).
-/

set_option autoImplicit false

namespace AmiPiBorg.Objects.ObjectPool

open ProgLib ObjectType

variable {ot ot' : ObjectType} {op op' : ObjectPool} {fuel : Nat}

/-! ## One type -/

/-- What `RemHead` gives in `n` calls. -/
def popped : Nat → List Nat → List (Option Nat)
  | 0, _ => []
  | n + 1, l => l.head? :: popped n l.tail

theorem popped_nil : ∀ k : Nat, popped k [] = List.replicate k none
  | 0 => rfl
  | k + 1 => by
    rw [List.replicate_succ, ← popped_nil k]
    rfl

theorem popped_eq (k : Nat) : ∀ l : List Nat, popped (l.length + k) l = l.map some ++ List.replicate k none
  | [] => by
    rw [List.length_nil, Nat.zero_add]
    exact popped_nil k
  | a :: l => by
    rw [List.length_cons, Nat.add_right_comm l.length 1 k, List.map_cons, List.cons_append, ← popped_eq k l]
    rfl

/-- The loop of `APB_DestroyObjectType` makes as many turns as there are instances. -/
theorem destroyTurn_run : ∀ (n : Nat) (op : ObjectPool) (ot : ObjectType), ot.instanceCount.toNat = n →
    ∃ r, Loop.run destroyTurn (n + 1) (op, ot) = some r ∧ r.1.addr = op.addr ∧ r.1.types = op.types ∧
      r.1.freed = op.freed ++ (popped n ot.instances).map fun m => (m, ot.nodeSize)
  | 0, op, ot, hc => by
    have hzero : ¬0 < ot.instanceCount := by
      rw [UInt16.lt_iff_toNat_lt, hc]
      exact Nat.lt_irrefl 0
    have hturn : destroyTurn (op, ot) = some (.done (op, ot)) := if_neg hzero
    exact ⟨(op, ot), Loop.run_done hturn, rfl, rfl, (List.append_nil _).symm⟩
  | n + 1, op, ot, hc => by
    have hpos : 0 < ot.instanceCount := by
      rw [UInt16.lt_iff_toNat_lt, hc]
      exact Nat.succ_pos n
    have hp := toNat_pred_of_pos (UInt16.lt_iff_toNat_lt.1 hpos)
    have hturn : destroyTurn (op, ot) =
        some (.again (op.destroyInstance { ot with instances := ot.instances.tail } ot.instances.head?)) := if_pos hpos
    obtain ⟨r, hr, ha, ht, hf⟩ := destroyTurn_run n (op.freeMem ot.instances.head? ot.nodeSize)
      { ot with instances := ot.instances.tail, instanceCount := ot.instanceCount - 1 } (by rw [hp, hc]; rfl)
    refine ⟨r, (Loop.run_again hturn).trans hr, ha, ht, hf.trans ?_⟩
    rw [popped, List.map_cons, List.append_cons]
    rfl

/-- What `APB_DestroyObjectType` frees. -/
def destroyed (ot : ObjectType) : List (Option Nat × Nat) :=
  ((ot.instances.map some ++ List.replicate ot.inUseCount.toNat none).map fun m => (m, ot.nodeSize)) ++
    [(some ot.addr, sizeofObjectType)]

/-- The pool after `APB_DestroyObjectType`. -/
def without (op : ObjectPool) (ot : ObjectType) : ObjectPool := { op with freed := op.freed ++ destroyed ot }

/-- **`APB_DestroyObjectType`** ends, and frees the listed instances, and the null pointer for every one in use. -/
theorem destroyObjectType_eq (hc : ot.Counted) (op : ObjectPool) (hfuel : 65536 ≤ fuel) :
    destroyObjectType fuel op ot = some (op.without ot) := by
  obtain ⟨⟨⟨addr, types, freed⟩, ot'⟩, hr, rfl, rfl, hf⟩ := destroyTurn_run ot.instanceCount.toNat op ot rfl
  have hrun := Loop.run_mono hr (le_trans ot.instanceCount.toNat_lt hfuel)
  rw [hc.count, Nat.add_comm, popped_eq] at hf
  unfold destroyObjectType without destroyed
  rw [hrun, ← List.append_assoc, ← hf]
  rfl

theorem destroyObjectType_some (hc : ot.Counted) (h : destroyObjectType fuel op ot = some op') : op' = op.without ot := by
  have heq := destroyObjectType_eq hc op (le_refl 65536)
  unfold destroyObjectType at h heq
  obtain ⟨r, hr, rfl⟩ := Option.map_eq_some_iff.1 h
  obtain ⟨r', hr', he⟩ := Option.map_eq_some_iff.1 heq
  rw [Loop.run_det hr hr', he]

/-! ## The pool -/

/-- What `APB_FreeObjectPool` frees. -/
def released (op : ObjectPool) : List (Option Nat × Nat) :=
  op.types.reverse.flatMap destroyed ++ [(some op.addr, sizeofObjectPool)]

theorem freeTurn_nil (fuel : Nat) (h : op.types = []) :
    freeTurn fuel op = some (.done (op.freeMem (some op.addr) sizeofObjectPool)) := by
  unfold freeTurn
  rw [h]
  rfl

theorem freeTurn_append (fuel : Nat) {types : List ObjectType} (h : op.types = types ++ [ot]) :
    freeTurn fuel op = (destroyObjectType fuel { op with types := types } ot).map .again := by
  unfold freeTurn
  rw [h, List.getLast?_concat, List.dropLast_concat]

/-- Between the turns of `APB_FreeObjectPool`, what was freed and what will be is `freed` altogether. -/
def Freeing (freed : List (Option Nat × Nat)) (op : ObjectPool) : Prop :=
  (∀ ot ∈ op.types, ot.Counted) ∧ op.freed ++ op.released = freed

/-- One turn. -/
theorem Freeing.turn {freed : List (Option Nat × Nat)} (h : Freeing freed op) :
    (op.types = [] ∧ (op.freeMem (some op.addr) sizeofObjectPool).freed = freed) ∨
      ∃ types ot, op.types = types ++ [ot] ∧ ot.Counted ∧ Freeing freed (without { op with types := types } ot) := by
  obtain ⟨hc, hf⟩ := h
  obtain hnil | ⟨types, ot, ht⟩ := op.types.eq_nil_or_concat'
  · left
    refine ⟨hnil, ?_⟩
    rw [← hf, released, hnil]
    rfl
  · right
    refine ⟨types, ot, ht, hc ot (by rw [ht]; exact List.mem_append_right _ (List.mem_singleton_self ot)),
      fun b hb => hc b (by rw [ht]; exact List.mem_append_left _ hb), ?_⟩
    rw [← hf, released, released, ht, List.reverse_append, List.reverse_singleton, List.singleton_append,
      List.flatMap_cons, List.append_assoc (destroyed ot), ← List.append_assoc op.freed]
    rfl

/-- **`APB_FreeObjectPool` ends.** -/
theorem freeObjectPool_ends (hc : ∀ ot ∈ op.types, ot.Counted) : ∃ fuel op', op.freeObjectPool fuel = some op' := by
  have hturn : ∀ k s, (s.types.length = k ∧ ∀ ot ∈ s.types, ot.Counted) →
      (∃ r, freeTurn (65536 + op.types.length) s = some (.done r) ∧ True) ∨
        ∃ s' k', freeTurn (65536 + op.types.length) s = some (.again s') ∧ k' < k ∧
          (s'.types.length = k' ∧ ∀ ot ∈ s'.types, ot.Counted) := by
    rintro k s ⟨rfl, hs⟩
    obtain ⟨hnil, -⟩ | ⟨types, ot, ht, hot, hfree⟩ := Freeing.turn ⟨hs, rfl⟩
    · exact .inl ⟨_, freeTurn_nil _ hnil, trivial⟩
    · refine .inr ⟨without { s with types := types } ot, types.length, ?_, ?_, rfl, hfree.1⟩
      · rw [freeTurn_append _ ht, destroyObjectType_eq hot _ (Nat.le_add_right ..)]
        rfl
      · rw [ht, List.length_append]
        exact Nat.lt_succ_self _
  have hlt : op.types.length < 65536 + op.types.length := by omega
  obtain ⟨op', hr, -⟩ := Loop.run_total _ (fun _ => True) hturn ⟨rfl, hc⟩ hlt
  exact ⟨_, op', hr⟩

/-- **What `APB_FreeObjectPool` frees.** -/
theorem freeObjectPool_freed (hc : ∀ ot ∈ op.types, ot.Counted) (h : op.freeObjectPool fuel = some op') :
    op'.freed = op.freed ++ op.released := by
  apply Loop.run_inv (Freeing (op.freed ++ op.released)) (fun op' => op'.freed = op.freed ++ op.released) _ _
    ⟨hc, rfl⟩ h
  · intro s s' hs ht
    obtain ⟨hnil, -⟩ | ⟨types, ot, hts, hot, hfree⟩ := hs.turn
    · rw [freeTurn_nil fuel hnil] at ht
      cases ht
    · rw [freeTurn_append fuel hts] at ht
      obtain ⟨u, hu, he⟩ := Option.map_eq_some_iff.1 ht
      cases he
      rw [destroyObjectType_some hot hu]
      exact hfree
  · intro s r hs ht
    obtain ⟨hnil, hf⟩ | ⟨types, ot, hts, hot, hfree⟩ := hs.turn
    · rw [freeTurn_nil fuel hnil] at ht
      cases ht
      exact hf
    · rw [freeTurn_append fuel hts] at ht
      obtain ⟨u, hu, he⟩ := Option.map_eq_some_iff.1 ht
      cases he

/-! ## Once each -/

/-- What is passed to `APB_FreeMemInternal` on the way from `op` to `op'`. -/
def passed (op op' : ObjectPool) : List (Option Nat) := (op'.freed.drop op.freed.length).map Prod.fst

/-- What is on the lists, and the records, with that of the pool last. -/
def idle (op : ObjectPool) : List Nat := (op.types.reverse.flatMap fun ot => ot.instances ++ [ot.addr]) ++ [op.addr]

theorem count_some (a : Nat) : ∀ l : List (Option Nat), l.count (some a) = l.reduceOption.count a
  | [] => rfl
  | none :: l => by
    rw [List.count_cons_of_ne (by simp), List.reduceOption_cons_of_none]
    exact count_some a l
  | some b :: l => by
    rw [List.reduceOption_cons_of_some, List.count_cons, List.count_cons, count_some a l]
    simp

theorem destroyed_fst (ot : ObjectType) : (destroyed ot).map Prod.fst =
    ot.instances.map some ++ List.replicate ot.inUseCount.toNat none ++ [some ot.addr] := by
  simp [destroyed, Function.comp_def]

theorem released_fst (op : ObjectPool) : op.released.map Prod.fst =
    (op.types.reverse.flatMap fun ot =>
      ot.instances.map some ++ List.replicate ot.inUseCount.toNat none ++ [some ot.addr]) ++ [some op.addr] := by
  unfold released
  rw [List.map_append, List.map_flatMap]
  simp only [destroyed_fst]
  rfl

theorem released_reduce (op : ObjectPool) : (op.released.map Prod.fst).reduceOption = op.idle := by
  rw [released_fst, List.reduceOption_append]
  unfold idle List.reduceOption
  rw [List.filterMap_flatMap]
  congr 1
  congr 1
  funext ot
  rw [List.filterMap_append, List.filterMap_append]
  simp

/-- What is on the lists is no memory in use. -/
theorem InOrder.idle_nodup (h : op.InOrder) : op.idle.Nodup := by
  have hsplit : op.blocks.Perm (op.idle ++ op.types.flatMap ObjectType.inUse) := by
    have h₁ : (op.types.flatMap ObjectType.blocks).Perm
        ((op.types.flatMap fun ot => ot.instances ++ [ot.addr]) ++ op.types.flatMap ObjectType.inUse) := by
      refine List.Perm.trans (.flatMap_left _ fun ot _ => ?_) (List.flatMap_append_perm _ _ _).symm
      unfold ObjectType.blocks
      rw [List.append_assoc, List.singleton_append]
      exact List.perm_middle.symm
    have h₂ : (op.types.flatMap fun ot => ot.instances ++ [ot.addr]).Perm
        (op.types.reverse.flatMap fun ot => ot.instances ++ [ot.addr]) :=
      (List.reverse_perm op.types).symm.flatMap_right _
    have h₃ := (h₁.trans (h₂.append_right _)).cons op.addr
    unfold idle
    rw [List.append_assoc, List.singleton_append]
    exact h₃.trans List.perm_middle.symm
  exact (List.nodup_append.1 (hsplit.nodup_iff.1 h.blocks)).1

/-- Everything that is on a list, and every record of a type, is freed once. -/
structure FreedOnce (op op' : ObjectPool) : Prop where
  instances : ∀ ot ∈ op.types, ∀ a ∈ ot.instances, (passed op op').count (some a) = 1
  records : ∀ ot ∈ op.types, (passed op op').count (some ot.addr) = 1

/-- `APB_FreeObjectPool` ends, frees everything once, and never the null pointer. -/
def FreesSafely (op : ObjectPool) : Prop :=
  ∃ fuel op', op.freeObjectPool fuel = some op' ∧ FreedOnce op op' ∧ none ∉ passed op op'

theorem InOrder.passed_eq (h : op.InOrder) (hf : op.freeObjectPool fuel = some op') :
    passed op op' = op.released.map Prod.fst := by
  unfold passed
  rw [freeObjectPool_freed h.counted hf, List.drop_left]

theorem InOrder.freedOnce (h : op.InOrder) (hf : op.freeObjectPool fuel = some op') : FreedOnce op op' := by
  have hone : ∀ ot ∈ op.types, ∀ a ∈ ot.instances ++ [ot.addr], (passed op op').count (some a) = 1 := by
    intro ot ho a ha
    rw [h.passed_eq hf, count_some, released_reduce]
    apply List.count_eq_one_of_mem h.idle_nodup
    exact List.mem_append_left _ (List.mem_flatMap.2 ⟨ot, List.mem_reverse.2 ho, ha⟩)
  exact ⟨fun ot ho a ha => hone ot ho a (List.mem_append_left _ ha),
    fun ot ho => hone ot ho ot.addr (List.mem_append_right _ (List.mem_singleton_self _))⟩

theorem InOrder.none_mem (h : op.InOrder) (hf : op.freeObjectPool fuel = some op') :
    none ∈ passed op op' ↔ ∃ ot ∈ op.types, ot.inUseCount ≠ 0 := by
  rw [h.passed_eq hf, released_fst]
  simp only [List.mem_append, List.mem_flatMap, List.mem_reverse, List.mem_map, List.mem_replicate, List.mem_singleton,
    reduceCtorEq, and_false, exists_false, or_false, false_or, and_true]
  refine exists_congr fun ot => and_congr_right fun _ => not_congr ?_
  rw [← UInt16.toNat_inj]
  rfl

/-- **Freeing the pool is safe** if and only if no object is in use. -/
theorem InOrder.freesSafely_iff (h : op.InOrder) : op.FreesSafely ↔ ∀ ot ∈ op.types, ot.inUseCount = 0 := by
  constructor
  · rintro ⟨fuel, op', hf, -, hn⟩ ot ho
    by_contra hne
    exact hn ((h.none_mem hf).2 ⟨ot, ho, hne⟩)
  · intro hz
    obtain ⟨fuel, op', hf⟩ := freeObjectPool_ends h.counted
    refine ⟨fuel, op', hf, h.freedOnce hf, fun hn => ?_⟩
    obtain ⟨ot, ho, hne⟩ := (h.none_mem hf).1 hn
    exact hne (hz ot ho)

/-- **Taking a pool down**: it always ends and frees everything once; it is safe, too, if and only if no object is in
use. -/
theorem freeObjectPool_safe {addr : Nat} {cs : List Call} (hl : Along Legal step (createObjectPool addr) cs)
    (hr : runs step (createObjectPool addr) cs = some op) :
    (∃ fuel op', op.freeObjectPool fuel = some op' ∧ FreedOnce op op') ∧
      (op.FreesSafely ↔ ∀ ot ∈ op.types, ot.inUseCount = 0) := by
  have h : op.InOrder := runs_inv InOrder (fun _ _ _ h hl he => h.step hl he) (inOrder_create addr) hl hr
  obtain ⟨fuel, op', hf⟩ := freeObjectPool_ends h.counted
  exact ⟨⟨fuel, op', hf, h.freedOnce hf⟩, h.freesSafely_iff⟩

/-- An object is got and not given back. -/
def leaked : List Call := [.register 7 100 1 2 [some 1000, some 2000], .alloc 7 none]

theorem leaked_unsafe : Along Legal step (createObjectPool 500) leaked ∧
    ∃ op : ObjectPool, runs step (createObjectPool 500) leaked = some op ∧ ¬op.FreesSafely := by
  have hl : Along Legal step (createObjectPool 500) leaked := by decide +kernel
  have hu : (runs step (createObjectPool 500) leaked).map (fun op => op.types.map ObjectType.inUseCount) = some [1] := by
    decide +kernel
  obtain ⟨op, hr, hu⟩ := Option.map_eq_some_iff.1 hu
  have h : op.InOrder := runs_inv InOrder (fun _ _ _ h hl he => h.step hl he) (inOrder_create 500) hl hr
  refine ⟨hl, op, hr, fun hs => ?_⟩
  have hmem : (1 : UInt16) ∈ op.types.map ObjectType.inUseCount := hu ▸ List.mem_singleton_self 1
  obtain ⟨ot, ho, he⟩ := List.mem_map.1 hmem
  have hz := h.freesSafely_iff.1 hs ot ho
  rw [he] at hz
  exact absurd hz (by decide)

theorem freeObjectPool_safe_sample : ∃ op : ObjectPool,
    runs step (createObjectPool 500) sample = some op ∧ op.FreesSafely := by
  have hu : (runs step (createObjectPool 500) sample).map (fun op => op.types.map ObjectType.inUseCount) = some [0] := by
    decide +kernel
  obtain ⟨op, hr, hu⟩ := Option.map_eq_some_iff.1 hu
  refine ⟨op, hr, (freeObjectPool_safe (by decide +kernel) hr).2.2 fun ot ho => ?_⟩
  have hmem : ot.inUseCount ∈ op.types.map ObjectType.inUseCount := List.mem_map_of_mem ho
  rw [hu] at hmem
  exact List.mem_singleton.1 hmem

end AmiPiBorg.Objects.ObjectPool
