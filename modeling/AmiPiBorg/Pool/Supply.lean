import AmiPiBorg.Pool.Invariant

/-!
# What a pool can supply

`allocObjects` asks for several objects of one type, one after the other. It gets all of them if and only if the type is
registered, there are not more of its objects in use then than its maximum, and there is memory for those that are not on
the list (`Supplies`, `allocObjects_iff`).

The maximum of a type is what it was registered with: `Registers limit` says so of a call, and `Limited limit` of a pool,
for the types that `limit` knows. Every call keeps it (`Limited.step`).
-/

set_option autoImplicit false

namespace AmiPiBorg.Objects

open ProgLib

variable {ot ot' : ObjectType} {op op' : ObjectPool} {mem : Option Nat} {id : UInt16} {limit : UInt16 → Option UInt16}

namespace ObjectPool

open ObjectType

/-! ## Several objects -/

/-- What `APB_AllocObjectInternal` answers, once for each of `mems`, which is the memory that there is for it. -/
def allocObjects (id : UInt16) : ObjectPool → List (Option Nat) → List (Option Nat)
  | _, [] => []
  | op, mem :: mems => (op.allocObject id mem).2 :: allocObjects id (op.allocObject id mem).1 mems

/-- There can be an object for each of `mems`, with no more than `limit` in use. -/
def Supplies (op : ObjectPool) (id : UInt16) (limit : Nat) (mems : List (Option Nat)) : Prop :=
  mems = [] ∨ ∃ ot ∈ op.getObjectType id, ot.inUseCount.toNat + mems.length ≤ limit ∧
    ∀ mem ∈ mems.drop ot.instances.length, mem.isSome

instance (op : ObjectPool) (id : UInt16) (limit : Nat) (mems : List (Option Nat)) :
    Decidable (op.Supplies id limit mems) := by unfold Supplies; infer_instance

@[simp] theorem length_allocObjects (id : UInt16) (op : ObjectPool) (mems : List (Option Nat)) :
    (allocObjects id op mems).length = mems.length := by
  induction mems generalizing op with
  | nil => rfl
  | cons mem mems ih => exact congrArg (· + 1) (ih _)

/-- A type is found where it was once it is written back. -/
theorem getObjectType_put (hf : op.getObjectType id = some ot) (hs : Same ot ot') :
    (op.put ot').getObjectType id = some ot' := by
  have hid : ot'.id = id := hs.2.trans (getObjectType_some hf).2
  unfold getObjectType put Keyed.put at *
  dsimp only
  generalize op.types = types at hf
  induction types with
  | nil => cases hf
  | cons b types ih =>
    rw [List.map_cons]
    by_cases hb : b.addr = ot'.addr
    · rw [if_pos hb]
      exact List.find?_cons_of_pos (by simpa using hid)
    · rw [if_neg hb]
      -- another record in front is not the type
      have hne : ¬b.id = id := by
        intro he
        rw [List.find?_cons_of_pos (by simpa using he)] at hf
        cases hf
        exact hb hs.1.symm
      rw [List.find?_cons_of_neg (by simpa using hne)] at hf ⊢
      exact ih hf

theorem allocObjects_unknown (hf : op.getObjectType id = none) (mems : List (Option Nat)) :
    ∀ a ∈ allocObjects id op mems, a = none := by
  induction mems with
  | nil => simp [allocObjects]
  | cons mem mems ih =>
    have ha : op.allocObject id mem = (op, none) := by
      unfold allocObject
      rw [hf]
    simpa [allocObjects, ha] using ih

/-- **What several calls get** of a type that is registered. -/
theorem allocObjects_known (hf : op.getObjectType id = some ot) (hc : ot.Counted) (mems : List (Option Nat)) :
    (∀ a ∈ allocObjects id op mems, a.isSome) ↔ ot.inUseCount.toNat + mems.length ≤ ot.maxInstances.toNat ∧
      ∀ mem ∈ mems.drop ot.instances.length, mem.isSome := by
  induction mems generalizing op ot with
  | nil =>
    have hmax := UInt16.le_iff_toNat_le.1 hc.max
    have hcount := hc.count
    simp only [allocObjects, List.drop_nil, List.not_mem_nil, false_implies, implies_true, and_true, true_iff,
      List.length_nil]
    omega
  | cons mem mems ih =>
    have ha : op.allocObject id mem = (op.put (ot.allocInstance mem).2, (ot.allocInstance mem).1.map nodeToObj) := by
      unfold allocObject
      rw [hf]
    have hk : Same ot (ot.allocInstance mem).2 ∧ (ot.allocInstance mem).2.Counted := by
      obtain h | ⟨_, -, h⟩ := hc.allocInstance mem <;> exact ⟨h.same, h.counted⟩
    have hrest := ih (getObjectType_put hf hk.1) hk.2
    have hcount := hc.count
    simp only [allocObjects, List.forall_mem_cons, ha, Option.isSome_map, hrest, List.length_cons]
    obtain ⟨he, hu, hw⟩ | ⟨obj, rfl, hu, hlt, he⟩ | ⟨obj, rest, hl, hlt, he⟩ := allocInstance_cases hc mem
    · -- nothing is left, and this call gets nothing
      have hnil : ot.instances = [] := List.eq_nil_of_length_eq_zero (by rw [hu] at hcount; omega)
      rw [he, hnil]
      constructor
      · rintro ⟨h, -⟩
        cases h
      · rintro ⟨hle, hmem⟩
        obtain hw | rfl := hw
        · have := UInt16.le_iff_toNat_le.1 hw
          rw [hu] at hle
          omega
        · exact absurd (hmem none List.mem_cons_self) (by simp)
    · have hnil : ot.instances = [] := List.eq_nil_of_length_eq_zero (by rw [hu] at hcount; omega)
      have hsucc := toNat_succ_of_lt (hu ▸ hlt : ot.inUseCount < ot.maxInstances)
      rw [he]
      simp only [hsucc, hnil, List.length_nil, List.drop_zero, List.forall_mem_cons, Option.isSome_some, true_and]
      rw [Nat.add_assoc, Nat.add_comm 1]
    · have hsucc := toNat_succ_of_lt hlt
      rw [he]
      simp only [hsucc, hl, List.length_cons, List.drop_succ_cons, Option.isSome_some, true_and]
      rw [Nat.add_assoc, Nat.add_comm 1]

/-- **What a pool in order can supply.** -/
theorem InOrder.allocObjects_iff (h : op.InOrder) {n : UInt16} (hn : ∀ ot ∈ op.getObjectType id, ot.maxInstances = n)
    (mems : List (Option Nat)) : (∀ a ∈ allocObjects id op mems, a.isSome) ↔ op.Supplies id n.toNat mems := by
  unfold Supplies
  cases hf : op.getObjectType id with
  | none =>
    refine ⟨fun ha => .inl ?_, ?_⟩
    · cases mems with
      | nil => rfl
      | cons mem mems =>
        have hnone := allocObjects_unknown hf (mem :: mems) _ List.mem_cons_self
        exact absurd (ha _ List.mem_cons_self) (by rw [hnone]; simp)
    · rintro (rfl | ⟨ot, ho, -⟩)
      · simp [allocObjects]
      · cases ho
  | some ot =>
    have hc := h.counted ot (getObjectType_some hf).1
    have hmax : ot.maxInstances = n := hn ot hf
    rw [allocObjects_known hf hc, hmax]
    refine ⟨fun ha => .inr ⟨ot, rfl, ha⟩, ?_⟩
    rintro (rfl | ⟨ot', ho, ha⟩)
    · rw [← hmax]
      exact (allocObjects_known hf hc []).1 (by simp [allocObjects])
    · cases ho
      exact ha

/-! ## The maxima -/

/-- A type that `limit` knows is registered with this maximum. -/
def Registers (limit : UInt16 → Option UInt16) : Call → Prop
  | .register id _ _ maxInstances _ => ∀ n ∈ limit id, maxInstances = n
  | _ => True

instance (limit : UInt16 → Option UInt16) : (c : Call) → Decidable (Registers limit c)
  | .register .. => inferInstanceAs (Decidable (∀ _ ∈ _, _))
  | .alloc .. | .free .. => inferInstanceAs (Decidable True)

/-- The types that `limit` knows have their maximum. -/
def Limited (limit : UInt16 → Option UInt16) (op : ObjectPool) : Prop :=
  ∀ ot ∈ op.types, ∀ n ∈ limit ot.id, ot.maxInstances = n

/-- Both have the same id and maximum. -/
def Alike (ot ot' : ObjectType) : Prop := ot'.id = ot.id ∧ ot'.maxInstances = ot.maxInstances

theorem createInstance_alike {obj : Nat} (h : ot.createInstance mem = some (obj, ot')) : Alike ot ot' := by
  obtain ⟨hn, -⟩ | ⟨obj', -, -, hs⟩ := createInstance_cases ot mem
  · rw [hn] at h
    cases h
  · cases hs.symm.trans h
    exact ⟨rfl, rfl⟩

theorem allocInstance_alike (ot : ObjectType) (mem : Option Nat) : Alike ot (ot.allocInstance mem).2 := by
  unfold ObjectType.allocInstance
  split
  · split
    · exact ⟨rfl, rfl⟩
    · next he =>
      have h := createInstance_alike he
      exact ⟨h.1, h.2⟩
  · exact ⟨rfl, rfl⟩

theorem fillInstances_alike (mems : List (Option Nat)) (ot : ObjectType) : Alike ot (ot.fillInstances mems) := by
  induction mems generalizing ot with
  | nil => exact ⟨rfl, rfl⟩
  | cons mem mems ih =>
    unfold ObjectType.fillInstances
    split
    · split
      · exact ⟨rfl, rfl⟩
      · next obj ot' he =>
        have h := createInstance_alike he
        have h' := ih { ot' with instances := ot'.instances ++ [obj] }
        exact ⟨h'.1.trans h.1, h'.2.trans h.2⟩
    · exact ⟨rfl, rfl⟩

theorem releaseInstance_alike (op : ObjectPool) (ot : ObjectType) (obj : Nat) :
    (op.releaseInstance ot obj).1.types = op.types ∧ Alike ot (op.releaseInstance ot obj).2 := by
  unfold releaseInstance
  split <;> exact ⟨rfl, rfl, rfl⟩

theorem Limited.put (h : Limited limit op) (ho : ot ∈ op.types) (ha : Alike ot ot') : Limited limit (op.put ot') := by
  intro b hb
  obtain rfl | ⟨hm, -⟩ := Keyed.mem_put hb
  · rw [ha.1, ha.2]
    exact h ot ho
  · exact h b hm

/-- **Every call keeps the maxima.** -/
theorem Limited.step {c : Call} (h : Limited limit op) (hc : Registers limit c) (he : ObjectPool.step op c = some op') :
    Limited limit op' := by
  cases c with
  | register id size minInstances maxInstances mem =>
    cases he
    unfold registerObjectType
    split
    · next addr mems _ =>
      intro b hb
      obtain hb | hb := List.mem_append.1 hb
      · exact h b hb
      · obtain ⟨hid, hmax⟩ := fillInstances_alike mems ⟨addr, [], id, size, minInstances, maxInstances, 0, 0, []⟩
        rw [List.mem_singleton.1 hb, hid, hmax]
        exact hc
    · exact h
  | alloc id mem =>
    cases he
    unfold allocObject
    split
    · exact h
    · next ot hf => exact h.put (getObjectType_some hf).1 (allocInstance_alike ot mem)
  | free id obj =>
    cases he
    unfold freeObject
    split
    · exact h
    · next ot hf =>
      obtain ⟨htypes, ha⟩ := releaseInstance_alike op ot (objToNode obj)
      have h' : Limited limit (op.releaseInstance ot (objToNode obj)).1 := by
        unfold Limited
        rw [htypes]
        exact h
      exact h'.put (htypes ▸ (getObjectType_some hf).1) ha

/-- A client's calls, which register no type that `limit` knows otherwise. -/
def Proper (limit : UInt16 → Option UInt16) (op : ObjectPool) (c : Call) : Prop := op.Legal c ∧ Registers limit c

instance (limit : UInt16 → Option UInt16) (op : ObjectPool) (c : Call) : Decidable (Proper limit op c) := by
  unfold Proper; infer_instance

/-- **After every run of calls**, the pool is in order and its types have their maxima. -/
theorem proper_run {addr : Nat} {cs : List Call} (hl : Along (Proper limit) step (createObjectPool addr) cs)
    (hr : runs step (createObjectPool addr) cs = some op) : op.InOrder ∧ Limited limit op := by
  refine runs_inv (fun op => op.InOrder ∧ Limited limit op) ?_ ⟨inOrder_create addr, ?_⟩ hl hr
  · rintro op c op' ⟨ho, hm⟩ ⟨hl, hc⟩ he
    exact ⟨ho.step hl he, hm.step hc he⟩
  · intro ot ho
    cases ho

end ObjectPool

end AmiPiBorg.Objects
