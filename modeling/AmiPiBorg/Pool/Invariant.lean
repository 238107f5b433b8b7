import AmiPiBorg.Pool.Defs

/-!
# The counters of an object pool

`Counted`: the counters of a type tell how many instances are listed and how many are in use. Then an instance is taken
from the list only if there is one. `InOrder` adds that no memory is in two places of the pool, so that no object is
handed out twice. Every call keeps this (`InOrder.step`), and `pool_in_order` is what holds in every run.
-/

set_option autoImplicit false

namespace AmiPiBorg.Objects

open ProgLib

variable {ot ot' : ObjectType} {op op' : ObjectPool} {mem : Option Nat} {obj : Nat}

/-! ## One type -/

namespace ObjectType

/-- The counters are right. -/
structure Counted (ot : ObjectType) : Prop where
  count : ot.instanceCount.toNat = ot.inUseCount.toNat + ot.instances.length
  inUse : ot.inUse.length = ot.inUseCount.toNat
  max : ot.instanceCount ≤ ot.maxInstances

/-- The memory of a type. -/
def blocks (ot : ObjectType) : List Nat := ot.addr :: (ot.instances ++ ot.inUse)

/-- Both are the same type. -/
def Same (ot ot' : ObjectType) : Prop := ot'.addr = ot.addr ∧ ot'.id = ot.id

theorem Counted.inUse_le (h : ot.Counted) : ot.inUseCount ≤ ot.instanceCount := by
  rw [UInt16.le_iff_toNat_le, h.count]
  exact Nat.le_add_right ..

/-- An instance is listed as long as one is not in use. -/
theorem Counted.instances_pos (h : ot.Counted) (hne : ot.inUseCount ≠ ot.instanceCount) : ot.instances ≠ [] := by
  intro hl
  have hc := h.count
  rw [hl, List.length_nil, Nat.add_zero] at hc
  exact hne (UInt16.toNat_inj.1 hc.symm)

/-- What `APB_CreateInstance` does. -/
theorem createInstance_cases (ot : ObjectType) (mem : Option Nat) :
    (ot.createInstance mem = none ∧ (ot.maxInstances ≤ ot.instanceCount ∨ mem = none)) ∨
      ∃ obj, mem = some obj ∧ ot.instanceCount < ot.maxInstances ∧
        ot.createInstance mem = some (obj, { ot with instanceCount := ot.instanceCount + 1 }) := by
  unfold createInstance
  by_cases h : ot.maxInstances ≤ ot.instanceCount
  · rw [if_pos h]
    exact .inl ⟨rfl, .inl h⟩
  · rw [if_neg h]
    cases mem with
    | none => exact .inl ⟨rfl, .inr rfl⟩
    | some obj => exact .inr ⟨obj, rfl, UInt16.not_le.1 h, rfl⟩

/-- A counter below another one can be counted up. -/
theorem toNat_succ_of_lt {a b : UInt16} (h : a < b) : (a + 1).toNat = a.toNat + 1 := by
  rw [UInt16.lt_iff_toNat_lt] at h
  have hb := b.toNat_lt
  rw [UInt16.toNat_add, show (1 : UInt16).toNat = 1 from rfl, Nat.mod_eq_of_lt (by omega)]

theorem toNat_pred_of_pos {a : UInt16} (h : 0 < a.toNat) : (a - 1).toNat = a.toNat - 1 := by
  rw [UInt16.toNat_sub_of_le]
  · rfl
  · rw [UInt16.le_iff_toNat_le]
    exact h

/-- **What `APB_AllocInstance` does**: a new instance is made if all are in use, otherwise the first of the list is
taken. It fails only for want of memory or at the maximum. -/
theorem allocInstance_cases (h : ot.Counted) (mem : Option Nat) :
    (ot.allocInstance mem = (none, ot) ∧ ot.inUseCount = ot.instanceCount ∧
        (ot.maxInstances ≤ ot.instanceCount ∨ mem = none)) ∨
      (∃ obj, mem = some obj ∧ ot.inUseCount = ot.instanceCount ∧ ot.instanceCount < ot.maxInstances ∧
        ot.allocInstance mem = (some obj, { ot with
          instanceCount := ot.instanceCount + 1, inUseCount := ot.inUseCount + 1, inUse := ot.inUse ++ [obj] })) ∨
      ∃ obj rest, ot.instances = obj :: rest ∧ ot.inUseCount < ot.instanceCount ∧
        ot.allocInstance mem = (some obj, { ot with
          instances := rest, inUseCount := ot.inUseCount + 1, inUse := ot.inUse ++ [obj] }) := by
  by_cases he : ot.inUseCount = ot.instanceCount
  · obtain ⟨hn, hw⟩ | ⟨obj, hm, hlt, hs⟩ := createInstance_cases ot mem
    · refine .inl ⟨?_, he, hw⟩
      unfold allocInstance
      rw [if_pos he, hn]
    · refine .inr (.inl ⟨obj, hm, he, hlt, ?_⟩)
      unfold allocInstance
      rw [if_pos he, hs]
  · obtain ⟨obj, rest, hl⟩ := List.exists_cons_of_ne_nil (h.instances_pos he)
    refine .inr (.inr ⟨obj, rest, hl, UInt16.lt_of_le_of_ne h.inUse_le he, ?_⟩)
    unfold allocInstance
    rw [if_neg he, hl]
    rfl

/-- A type with its counters right keeps them, and the memory is what it was and what it got. -/
structure Kept (ot ot' : ObjectType) (got : List Nat) : Prop where
  same : Same ot ot'
  counted : ot'.Counted
  blocks : ot'.blocks.Perm (ot.blocks ++ got)

theorem Counted.allocInstance (h : ot.Counted) (mem : Option Nat) : Kept ot (ot.allocInstance mem).2 [] ∨
    ∃ obj, mem = some obj ∧ Kept ot (ot.allocInstance mem).2 [obj] := by
  obtain ⟨he, -⟩ | ⟨obj, hm, he, hlt, ha⟩ | ⟨obj, rest, hl, hlt, ha⟩ := allocInstance_cases h mem
  · left
    rw [he]
    exact ⟨⟨rfl, rfl⟩, h, by rw [List.append_nil]⟩
  · right
    have hi := toNat_succ_of_lt hlt
    have hu := toNat_succ_of_lt (he ▸ hlt)
    have hc := h.count
    rw [ha]
    refine ⟨obj, hm, ⟨rfl, rfl⟩, ⟨?_, ?_, ?_⟩, ?_⟩
    · show (ot.instanceCount + 1).toNat = (ot.inUseCount + 1).toNat + ot.instances.length
      omega
    · show (ot.inUse ++ [obj]).length = (ot.inUseCount + 1).toNat
      rw [List.length_append, List.length_singleton, h.inUse, hu]
    · show ot.instanceCount + 1 ≤ ot.maxInstances
      rw [UInt16.le_iff_toNat_le, hi]
      exact UInt16.lt_iff_toNat_lt.1 hlt
    · show (ot.addr :: (ot.instances ++ (ot.inUse ++ [obj]))).Perm ((ot.addr :: (ot.instances ++ ot.inUse)) ++ [obj])
      rw [List.cons_append, List.append_assoc]
  · left
    have hu := toNat_succ_of_lt hlt
    have hc := h.count
    rw [ha]
    refine ⟨⟨rfl, rfl⟩, ⟨?_, ?_, h.max⟩, ?_⟩
    · show ot.instanceCount.toNat = (ot.inUseCount + 1).toNat + rest.length
      rw [hl, List.length_cons] at hc
      omega
    · show (ot.inUse ++ [obj]).length = (ot.inUseCount + 1).toNat
      rw [List.length_append, List.length_singleton, h.inUse, hu]
    · show (ot.addr :: (rest ++ (ot.inUse ++ [obj]))).Perm ((ot.addr :: (ot.instances ++ ot.inUse)) ++ [])
      rw [hl, List.append_nil, ← List.append_assoc]
      exact (List.perm_append_singleton obj (rest ++ ot.inUse)).cons ot.addr

theorem Kept.refl (h : ot.Counted) : Kept ot ot [] := ⟨⟨rfl, rfl⟩, h, by rw [List.append_nil]⟩

/-- **The instances that are made in advance.** -/
theorem Counted.fillInstances : ∀ (mems : List (Option Nat)) {ot : ObjectType}, ot.Counted →
    ∃ got, got.Sublist (mems.reduceOption) ∧ Kept ot (ot.fillInstances mems) got
  | [], ot, h => ⟨[], List.Sublist.refl _, .refl h⟩
  | mem :: mems, ot, h => by
    unfold ObjectType.fillInstances
    split
    · obtain ⟨hn, -⟩ | ⟨obj, rfl, hlt, hs⟩ := createInstance_cases ot mem
      · rw [hn]
        exact ⟨[], List.nil_sublist _, .refl h⟩
      · have hi := toNat_succ_of_lt hlt
        have hc := h.count
        have h' : Counted { ot with instanceCount := ot.instanceCount + 1, instances := ot.instances ++ [obj] } := by
          refine ⟨?_, h.inUse, ?_⟩
          · show (ot.instanceCount + 1).toNat = ot.inUseCount.toNat + (ot.instances ++ [obj]).length
            rw [List.length_append, List.length_singleton]
            omega
          · show ot.instanceCount + 1 ≤ ot.maxInstances
            rw [UInt16.le_iff_toNat_le, hi]
            exact UInt16.lt_iff_toNat_lt.1 hlt
        obtain ⟨got, hg, hk⟩ := h'.fillInstances mems
        rw [hs]
        refine ⟨obj :: got, ?_, hk.same, hk.counted, hk.blocks.trans ?_⟩
        · rw [List.reduceOption_cons_of_some]
          exact hg.cons_cons obj
        · show ((ot.addr :: ((ot.instances ++ [obj]) ++ ot.inUse)) ++ got).Perm
            ((ot.addr :: (ot.instances ++ ot.inUse)) ++ obj :: got)
          rw [List.append_assoc, List.singleton_append, List.cons_append, List.cons_append, List.append_assoc,
            List.append_assoc, List.cons_append]
          exact ((List.perm_middle.symm).append_left ot.instances).cons ot.addr
    · exact ⟨[], List.nil_sublist _, .refl h⟩

/-- **An instance that is given back** is freed or listed. -/
theorem Counted.releaseInstance (h : ot.Counted) (op : ObjectPool) (hobj : obj ∈ ot.inUse) :
    (op.releaseInstance ot obj).1.addr = op.addr ∧ (op.releaseInstance ot obj).1.types = op.types ∧
      Same ot (op.releaseInstance ot obj).2 ∧ (op.releaseInstance ot obj).2.Counted ∧
      ∃ lost, ((op.releaseInstance ot obj).2.blocks ++ lost).Perm ot.blocks := by
  have hperm := List.perm_cons_erase hobj
  have hlen := hperm.length_eq
  rw [List.length_cons] at hlen
  have hu : 0 < ot.inUseCount.toNat := by
    rw [← h.inUse]
    omega
  have hc := h.count
  have hp := toNat_pred_of_pos hu
  have hin := h.inUse
  unfold ObjectPool.releaseInstance
  split
  · have hq := toNat_pred_of_pos (a := ot.instanceCount) (by omega)
    refine ⟨rfl, rfl, ⟨rfl, rfl⟩, ⟨?_, ?_, ?_⟩, [obj], ?_⟩
    · show (ot.instanceCount - 1).toNat = (ot.inUseCount - 1).toNat + ot.instances.length
      omega
    · show (ot.inUse.erase obj).length = (ot.inUseCount - 1).toNat
      omega
    · show ot.instanceCount - 1 ≤ ot.maxInstances
      rw [UInt16.le_iff_toNat_le, hq]
      exact le_trans (Nat.sub_le ..) (UInt16.le_iff_toNat_le.1 h.max)
    · show ((ot.addr :: (ot.instances ++ ot.inUse.erase obj)) ++ [obj]).Perm (ot.addr :: (ot.instances ++ ot.inUse))
      rw [List.cons_append, List.append_assoc]
      exact (((List.perm_append_singleton obj _).trans hperm.symm).append_left ot.instances).cons ot.addr
  · refine ⟨rfl, rfl, ⟨rfl, rfl⟩, ⟨?_, ?_, h.max⟩, [], ?_⟩
    · show ot.instanceCount.toNat = (ot.inUseCount - 1).toNat + (ot.instances ++ [obj]).length
      rw [List.length_append, List.length_singleton]
      omega
    · show (ot.inUse.erase obj).length = (ot.inUseCount - 1).toNat
      omega
    · show ((ot.addr :: ((ot.instances ++ [obj]) ++ ot.inUse.erase obj)) ++ []).Perm
        (ot.addr :: (ot.instances ++ ot.inUse))
      rw [List.append_nil, List.append_assoc, List.singleton_append]
      exact (hperm.symm.append_left ot.instances).cons ot.addr

end ObjectType

/-! ## The pool -/

namespace ObjectPool

open ObjectType

/-- The counters are right, no type is registered twice, and no memory is in two places. -/
structure InOrder (op : ObjectPool) : Prop where
  counted : ∀ ot ∈ op.types, ot.Counted
  ids : (op.types.map ObjectType.id).Nodup
  addrs : (op.types.map ObjectType.addr).Nodup
  blocks : op.blocks.Nodup

theorem getObjectType_some {id : UInt16} (h : op.getObjectType id = some ot) : ot ∈ op.types ∧ ot.id = id := by
  refine ⟨List.mem_of_find?_eq_some h, ?_⟩
  simpa using List.find?_some h

theorem getObjectType_none {id : UInt16} (h : op.getObjectType id = none) : id ∉ op.types.map ObjectType.id := by
  intro hm
  obtain ⟨ot, ho, he⟩ := List.mem_map.1 hm
  have := List.find?_eq_none.1 h ot ho
  simp only [decide_eq_true_eq] at this
  exact this he

/-- A type is found under its id. -/
theorem InOrder.find (h : op.InOrder) (ho : ot ∈ op.types) : op.getObjectType ot.id = some ot := by
  cases hf : op.getObjectType ot.id with
  | none => exact absurd (List.mem_map_of_mem ho) (getObjectType_none hf)
  | some ot' =>
    obtain ⟨ho', hid⟩ := getObjectType_some hf
    rw [List.inj_on_of_nodup_map h.ids ho' ho hid]

/-- **One type changes**, and the memory of the pool with it. -/
theorem InOrder.put (h : op.InOrder) (ho : ot ∈ op.types) (hs : Same ot ot') (hc : ot'.Counted)
    (hb : ∀ rest, (op.addr :: (ot.blocks ++ rest)).Nodup → op.blocks.Perm (op.addr :: (ot.blocks ++ rest)) →
      (op.addr :: (ot'.blocks ++ rest)).Nodup) : (op.put ot').InOrder := by
  obtain ⟨rest, hp, hp', -⟩ := Keyed.perm_flatMap ObjectType.blocks h.addrs ho
  have hbl : op.blocks.Perm (op.addr :: (ot.blocks ++ rest)) := hp.cons op.addr
  refine ⟨fun b hb' => ?_, ?_, ?_, ?_⟩
  · obtain rfl | ⟨hm, -⟩ := Keyed.mem_put hb'
    · exact hc
    · exact h.counted b hm
  · have hids : (op.put ot').types.map ObjectType.id = op.types.map ObjectType.id := by
      show (Keyed.put ObjectType.addr op.types ot').map ObjectType.id = _
      unfold Keyed.put
      rw [List.map_map]
      apply List.map_congr_left
      intro b hb'
      simp only [Function.comp_apply]
      split
      · next he =>
        rw [hs.2, List.inj_on_of_nodup_map h.addrs hb' ho (he.trans hs.1)]
      · rfl
    rw [hids]
    exact h.ids
  · show ((Keyed.put ObjectType.addr op.types ot').map ObjectType.addr).Nodup
    rw [Keyed.map_key_put]
    exact h.addrs
  · have hn := hb rest (hbl.nodup_iff.1 h.blocks) hbl
    exact ((hp' ot' hs.1).cons op.addr).nodup_iff.2 hn

theorem mem_blocks {types : List ObjectType} (ho : ot ∈ types) {a : Nat} (ha : a ∈ ot.blocks) :
    a ∈ types.flatMap ObjectType.blocks := List.mem_flatMap.2 ⟨ot, ho, ha⟩

/-- What is listed is not in use. -/
theorem InOrder.not_inUse (h : op.InOrder) (ho : ot ∈ op.types) {node : Nat} (hn : node ∈ ot.instances) :
    ∀ b ∈ op.types, node ∉ b.inUse := by
  intro b hb hm
  obtain ⟨rest, hp, -, hr⟩ := Keyed.perm_flatMap ObjectType.blocks h.addrs ho
  have hnd : (op.types.flatMap ObjectType.blocks).Nodup := (List.nodup_cons.1 h.blocks).2
  obtain ⟨hot, -, hd⟩ := List.nodup_append.1 (hp.nodup_iff.1 hnd)
  by_cases he : b = ot
  · subst he
    exact (List.nodup_append.1 (List.nodup_cons.1 hot).2).2.2 node hn node hm rfl
  · have hne : b.addr ≠ ot.addr := fun e => he (List.inj_on_of_nodup_map h.addrs hb ho e)
    have hrest : node ∈ rest :=
      hr.subset (mem_blocks (Keyed.mem_remove.2 ⟨hb, hne⟩) (List.mem_cons_of_mem _ (List.mem_append_right _ hm)))
    exact hd node (List.mem_cons_of_mem _ (List.mem_append_left _ hn)) node hrest rfl

theorem inOrder_create (addr : Nat) : (createObjectPool addr).InOrder :=
  ⟨fun _ h => (by cases h), List.nodup_nil, List.nodup_nil, List.nodup_singleton addr⟩

/-- **A type is added**, with memory of its own. -/
theorem InOrder.append (h : op.InOrder) (hc : ot.Counted) (hid : ot.id ∉ op.types.map ObjectType.id)
    (hb : (op.blocks ++ ot.blocks).Nodup) : InOrder { op with types := op.types ++ [ot] } := by
  have hblocks : ObjectPool.blocks { op with types := op.types ++ [ot] } = op.blocks ++ ot.blocks := by
    unfold ObjectPool.blocks
    rw [List.flatMap_append, List.flatMap_singleton]
    rfl
  refine ⟨fun b hb => ?_, ?_, ?_, ?_⟩
  · obtain hb | hb := List.mem_append.1 hb
    · exact h.counted b hb
    · rw [List.mem_singleton.1 hb]
      exact hc
  · rw [List.map_append, List.map_singleton]
    refine List.nodup_append.2 ⟨h.ids, List.nodup_singleton _, fun a ha b hb hab => ?_⟩
    rw [List.mem_singleton.1 hb] at hab
    exact hid (hab ▸ ha)
  · rw [List.map_append, List.map_singleton]
    refine List.nodup_append.2 ⟨h.addrs, List.nodup_singleton _, fun a ha b hb' hab => ?_⟩
    rw [List.mem_singleton.1 hb'] at hab
    obtain ⟨c, hc, hca⟩ := List.mem_map.1 ha
    -- the record of a type is memory of the pool
    have hm : a ∈ op.blocks := List.mem_cons_of_mem _ (mem_blocks hc (hca ▸ List.mem_cons_self))
    exact (List.nodup_append.1 hb).2.2 a hm ot.addr List.mem_cons_self hab
  · rw [hblocks]
    exact hb

theorem InOrder.registerObjectType (h : op.InOrder) (id size minInstances maxInstances : UInt16)
    {mem : List (Option Nat)} (hl : op.Legal (.register id size minInstances maxInstances mem)) :
    (op.registerObjectType id size minInstances maxInstances mem).InOrder := by
  obtain ⟨hn, hf⟩ := hl
  unfold ObjectPool.registerObjectType
  split
  · next addr mems ho =>
    rw [List.reduceOption_cons_of_some] at hn hf
    dsimp only
    generalize hot : ObjectType.mk addr [] id size minInstances maxInstances 0 0 [] = ot
    have hc : ot.Counted := by
      rw [← hot]
      exact ⟨rfl, rfl, UInt16.le_iff_toNat_le.2 (Nat.zero_le _)⟩
    have hid : ot.id = id := by rw [← hot]
    have hot : ot.blocks = [addr] := by rw [← hot]; rfl
    obtain ⟨got, hg, hk⟩ := hc.fillInstances mems
    have hgot : (addr :: got).Sublist (addr :: mems.reduceOption) := hg.cons_cons addr
    have hbl : (ot.fillInstances mems).blocks.Perm (addr :: got) := by
      have := hk.blocks
      rw [hot] at this
      exact this
    refine h.append hk.counted ?_ (List.nodup_append.2 ⟨h.blocks, ?_, fun a ha b hb hab => ?_⟩)
    · rw [hk.same.2, hid]
      exact getObjectType_none ho
    · exact hbl.nodup_iff.2 (hgot.nodup hn)
    · rw [← hab] at hb
      exact hf a (hgot.subset (hbl.subset hb)) ha
  · exact h

theorem InOrder.allocObject (h : op.InOrder) {id : UInt16} (hl : op.Legal (.alloc id mem)) :
    (op.allocObject id mem).1.InOrder := by
  unfold ObjectPool.allocObject
  split
  · exact h
  · next ot hf =>
    obtain ⟨ho, -⟩ := getObjectType_some hf
    obtain hk | ⟨obj, hm, hk⟩ := (h.counted ot ho).allocInstance mem
    · refine h.put ho hk.same hk.counted fun rest hn _ => ?_
      have hp := hk.blocks
      rw [List.append_nil] at hp
      exact ((hp.append_right rest).cons op.addr).nodup_iff.2 hn
    · refine h.put ho hk.same hk.counted fun rest hn hb => ?_
      have hnew : obj ∉ op.addr :: (ot.blocks ++ rest) := fun hmem => hl obj hm (hb.symm.subset hmem)
      have hp : (op.addr :: ((ot.allocInstance mem).2.blocks ++ rest)).Perm (obj :: op.addr :: (ot.blocks ++ rest)) := by
        have h₁ := (hk.blocks.trans (List.perm_append_singleton obj ot.blocks)).append_right rest
        exact (h₁.cons op.addr).trans (.swap obj op.addr _)
      exact hp.nodup_iff.2 (List.nodup_cons.2 ⟨hnew, hn⟩)

theorem InOrder.freeObject (h : op.InOrder) {id : UInt16} {obj : Nat} (hl : op.Legal (.free id obj)) :
    (op.freeObject id obj).InOrder := by
  obtain ⟨ot, ho, rfl, hobj⟩ := hl
  unfold ObjectPool.freeObject
  rw [h.find ho]
  obtain ⟨haddr, htypes, hs, hc, lost, hp⟩ := (h.counted ot ho).releaseInstance op hobj
  dsimp only
  generalize op.releaseInstance ot (objToNode obj) = r at haddr htypes hs hc hp ⊢
  have hr : r.1.InOrder := by
    have hb : r.1.blocks = op.blocks := by
      unfold ObjectPool.blocks
      rw [haddr, htypes]
    refine ⟨?_, ?_, ?_, ?_⟩
    · rw [htypes]
      exact h.counted
    · rw [htypes]
      exact h.ids
    · rw [htypes]
      exact h.addrs
    · rw [hb]
      exact h.blocks
  refine hr.put (htypes ▸ ho) hs hc fun rest hn _ => ?_
  have hp' : (r.1.addr :: (ot.blocks ++ rest)).Perm (lost ++ r.1.addr :: (r.2.blocks ++ rest)) := by
    have h₁ := (hp.symm.trans List.perm_append_comm).append_right rest
    rw [List.append_assoc] at h₁
    exact (h₁.cons r.1.addr).trans List.perm_middle.symm
  exact (List.nodup_append.1 (hp'.nodup_iff.1 hn)).2.1

/-- **Every call keeps the pool in order.** -/
theorem InOrder.step {c : Call} (h : op.InOrder) (hl : op.Legal c) (he : ObjectPool.step op c = some op') : op'.InOrder := by
  cases c with
  | register id size minInstances maxInstances mem =>
    cases he
    exact h.registerObjectType id size minInstances maxInstances hl
  | alloc id mem =>
    cases he
    exact h.allocObject hl
  | free id obj =>
    cases he
    exact h.freeObject hl

/-! ## What a client gets -/

/-- An object that is handed out is in use nowhere. -/
theorem InOrder.alloc_fresh (h : op.InOrder) {id : UInt16} (hl : op.Legal (.alloc id mem)) {obj : Nat}
    (he : (op.allocObject id mem).2 = some obj) : ∀ ot ∈ op.types, objToNode obj ∉ ot.inUse := by
  unfold ObjectPool.allocObject at he
  split at he
  · cases he
  · next ot hf =>
    obtain ⟨ho, -⟩ := getObjectType_some hf
    dsimp only at he
    obtain ⟨hn, -⟩ | ⟨node, hm, -, -, ha⟩ | ⟨node, rest, hins, -, ha⟩ := allocInstance_cases (h.counted ot ho) mem
    · rw [hn] at he
      cases he
    · rw [ha] at he
      cases he
      intro b hb hmem
      rw [objToNode_nodeToObj] at hmem
      have hbl : node ∈ op.blocks :=
        List.mem_cons_of_mem _ (mem_blocks hb (List.mem_cons_of_mem _ (List.mem_append_right _ hmem)))
      exact hl node hm hbl
    · rw [ha] at he
      cases he
      intro b hb hmem
      rw [objToNode_nodeToObj] at hmem
      exact h.not_inUse ho (hins ▸ List.mem_cons_self) b hb hmem

/-- **When no object is handed out**: the type is unknown, or all its instances are in use and there can be no more. -/
theorem InOrder.alloc_none (h : op.InOrder) {id : UInt16} (he : (op.allocObject id mem).2 = none) :
    op.getObjectType id = none ∨ ∃ ot, op.getObjectType id = some ot ∧ ot.inUseCount = ot.instanceCount ∧
      ot.instances = [] ∧ (ot.maxInstances ≤ ot.instanceCount ∨ mem = none) := by
  unfold ObjectPool.allocObject at he
  split at he
  · next hf => exact .inl hf
  · next ot hf =>
    obtain ⟨ho, -⟩ := getObjectType_some hf
    have hc := h.counted ot ho
    dsimp only at he
    obtain ⟨-, hu, hw⟩ | ⟨node, hm, -, -, ha⟩ | ⟨node, rest, hins, -, ha⟩ := allocInstance_cases hc mem
    · have hlen := hc.count
      rw [hu] at hlen
      exact .inr ⟨ot, hf, hu, List.eq_nil_of_length_eq_zero (by omega), hw⟩
    · rw [ha] at he
      cases he
    · rw [ha] at he
      cases he

/-- **The books of a pool** after every run of calls: the counters are right and within the maximum, no type is
registered twice, no object is handed out that is in use, and none is refused that could be had. -/
theorem pool_in_order {addr : Nat} {cs : List Call} {op : ObjectPool}
    (hl : Along Legal step (createObjectPool addr) cs) (hr : runs step (createObjectPool addr) cs = some op) :
    (∀ ot ∈ op.types, ot.instanceCount.toNat = ot.inUseCount.toNat + ot.instances.length ∧
      ot.inUseCount ≤ ot.instanceCount ∧ ot.instanceCount ≤ ot.maxInstances) ∧
    (op.types.map ObjectType.id).Nodup ∧
    ∀ (id : UInt16) (mem : Option Nat), op.Legal (.alloc id mem) →
      (∀ obj, (op.allocObject id mem).2 = some obj → ∀ ot ∈ op.types, objToNode obj ∉ ot.inUse) ∧
      ((op.allocObject id mem).2 = none → op.getObjectType id = none ∨
        ∃ ot, op.getObjectType id = some ot ∧ ot.inUseCount = ot.instanceCount ∧ ot.instances = [] ∧
          (ot.maxInstances ≤ ot.instanceCount ∨ mem = none)) := by
  have h : op.InOrder := runs_inv InOrder (fun _ _ _ h hl he => h.step hl he) (inOrder_create addr) hl hr
  refine ⟨fun ot ho => ?_, h.ids, fun id mem hm => ⟨fun obj he => h.alloc_fresh hm he, h.alloc_none⟩⟩
  have hc := h.counted ot ho
  exact ⟨hc.count, hc.inUse_le, hc.max⟩

/-- A type with one instance made in advance, a second one got later, and both given back. -/
def sample : List Call :=
  [.register 7 100 1 2 [some 1000, some 2000], .alloc 7 none, .alloc 7 (some 3000), .free 7 2008, .free 7 3008]

theorem pool_in_order_sample : ∃ op : ObjectPool, runs step (createObjectPool 500) sample = some op ∧
    ∀ ot ∈ op.types, ot.instanceCount.toNat = ot.inUseCount.toNat + ot.instances.length ∧
      ot.inUseCount ≤ ot.instanceCount ∧ ot.instanceCount ≤ ot.maxInstances := by
  obtain ⟨op, h⟩ : ∃ op, runs step (createObjectPool 500) sample = some op :=
    Option.isSome_iff_exists.1 (by decide +kernel)
  exact ⟨op, h, (pool_in_order (by decide +kernel) h).1⟩

end ObjectPool

end AmiPiBorg.Objects
