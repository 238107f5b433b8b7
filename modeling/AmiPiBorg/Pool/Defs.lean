import Mathlib.Data.List.ReduceOption
import AmiPiBorg.Lib.Runs
import AmiPiBorg.Lib.Loop
import AmiPiBorg.Lib.Keyed

/-!
# Object pools (`library/objectpool.c`)

A pool keeps objects of some types. Of each type it counts the instances that there are and those that are in use, and
lists the others. The list is only taken from (`RemHead`) where the two counters differ, and an instance that is given
back is freed or listed as a third number says.

Memory is a matter of the caller: what `APB_AllocMemInternal` answers is an argument (`mem`), and what is passed to
`APB_FreeMemInternal` is listed in `freed`, where `none` is the null pointer.
-/

set_option autoImplicit false

namespace AmiPiBorg.Objects

open ProgLib

/-- `struct ObjectType`. The name is only for the log. -/
structure ObjectType where
  /-- The address of the record. -/
  addr : Nat
  /-- `ot_Instances`. -/
  instances : List Nat
  id : UInt16
  size : UInt16
  minInstances : UInt16
  maxInstances : UInt16
  instanceCount : UInt16
  inUseCount : UInt16
  /-- Ghost: the instances that were handed out and not given back. -/
  inUse : List Nat
  deriving DecidableEq

/-- `struct ObjectPool`. -/
structure ObjectPool where
  /-- The address of the record. -/
  addr : Nat
  types : List ObjectType
  /-- The calls of `APB_FreeMemInternal`: the memory and its size. -/
  freed : List (Option Nat × Nat)
  deriving DecidableEq

/-- `sizeof(struct MinNode)`. -/
def sizeofMinNode : Nat := 8
/-- `sizeof(struct ObjectType)`. -/
def sizeofObjectType : Nat := 36
/-- `sizeof(struct ObjectPool)`. -/
def sizeofObjectPool : Nat := 20

/-- `OBJ_TO_NODE`. -/
def objToNode (obj : Nat) : Nat := obj - sizeofMinNode
/-- `NODE_TO_OBJ`. -/
def nodeToObj (node : Nat) : Nat := node + sizeofMinNode

@[simp] theorem objToNode_nodeToObj (node : Nat) : objToNode (nodeToObj node) = node := Nat.add_sub_cancel ..

/-! ## Instances -/

namespace ObjectType

/-- `NODE_SIZE`. -/
def nodeSize (ot : ObjectType) : Nat := ot.size.toNat + sizeofMinNode

/-- `APB_CreateInstance`. -/
def createInstance (ot : ObjectType) (mem : Option Nat) : Option (Nat × ObjectType) :=
  if ot.maxInstances ≤ ot.instanceCount then none
  else match mem with
    | none => none
    | some obj => some (obj, { ot with instanceCount := ot.instanceCount + 1 })

/-- `APB_AllocInstance`. -/
def allocInstance (ot : ObjectType) (mem : Option Nat) : Option Nat × ObjectType :=
  if ot.inUseCount = ot.instanceCount then
    match ot.createInstance mem with
    | none => (none, ot)
    | some (obj, ot) => (some obj, { ot with inUseCount := ot.inUseCount + 1, inUse := ot.inUse ++ [obj] })
  else
    (ot.instances.head?, { ot with instances := ot.instances.tail, inUseCount := ot.inUseCount + 1,
                                   inUse := ot.inUse ++ ot.instances.head?.toList })

/-- The loop of `APB_RegisterObjectTypeInternal`. There is no more memory when `mem` is used up. -/
def fillInstances : List (Option Nat) → ObjectType → ObjectType
  | [], ot => ot
  | mem :: mems, ot =>
    if ot.instanceCount < ot.minInstances then
      match ot.createInstance mem with
      | none => ot
      | some (obj, ot) => fillInstances mems { ot with instances := ot.instances ++ [obj] }
    else ot

end ObjectType

namespace ObjectPool

/-- `APB_CreateObjectPool`, with memory at `addr`. -/
def createObjectPool (addr : Nat) : ObjectPool := ⟨addr, [], []⟩

/-- `APB_FreeMemInternal`. -/
def freeMem (op : ObjectPool) (memory : Option Nat) (size : Nat) : ObjectPool :=
  { op with freed := op.freed ++ [(memory, size)] }

/-- The type, written back. -/
def put (op : ObjectPool) (ot : ObjectType) : ObjectPool :=
  { op with types := Keyed.put ObjectType.addr op.types ot }

/-- `APB_DestroyInstance`. -/
def destroyInstance (op : ObjectPool) (ot : ObjectType) (obj : Option Nat) : ObjectPool × ObjectType :=
  (op.freeMem obj ot.nodeSize, { ot with instanceCount := ot.instanceCount - 1 })

/-- `APB_ReleaseInstance`. -/
def releaseInstance (op : ObjectPool) (ot : ObjectType) (obj : Nat) : ObjectPool × ObjectType :=
  let r :=
    if ot.minInstances < ot.instanceCount then op.destroyInstance ot (some obj)
    else (op, { ot with instances := ot.instances ++ [obj] })
  (r.1, { r.2 with inUseCount := r.2.inUseCount - 1, inUse := r.2.inUse.erase obj })

/-! ## Types -/

/-- `APB_GetObjectType`. -/
def getObjectType (op : ObjectPool) (id : UInt16) : Option ObjectType := op.types.find? fun ot => ot.id = id

/-- `APB_TypeRegisteredInternal`. -/
def typeRegistered (op : ObjectPool) (id : UInt16) : Bool := (op.getObjectType id).isSome

/-- `APB_RegisterObjectTypeInternal`. The first memory is for the record. -/
def registerObjectType (op : ObjectPool) (id size minInstances maxInstances : UInt16) (mem : List (Option Nat)) :
    ObjectPool :=
  match op.getObjectType id, mem with
  | none, some addr :: mems =>
    let ot : ObjectType :=
      { addr := addr, instances := [], id := id, size := size, minInstances := minInstances,
        maxInstances := maxInstances, instanceCount := 0, inUseCount := 0, inUse := [] }
    { op with types := op.types ++ [ot.fillInstances mems] }
  | _, _ => op

/-- `APB_AllocObjectInternal`. -/
def allocObject (op : ObjectPool) (id : UInt16) (mem : Option Nat) : ObjectPool × Option Nat :=
  match op.getObjectType id with
  | none => (op, none)
  | some ot =>
    let r := ot.allocInstance mem
    (op.put r.2, r.1.map nodeToObj)

/-- `APB_FreeObjectInternal`. -/
def freeObject (op : ObjectPool) (id : UInt16) (obj : Nat) : ObjectPool :=
  match op.getObjectType id with
  | none => op
  | some ot =>
    let r := op.releaseInstance ot (objToNode obj)
    r.1.put r.2

/-! ## Taking the pool down -/

/-- A turn of the loop of `APB_DestroyObjectType`: `RemHead` gives the null pointer for an empty list. -/
def destroyTurn : ObjectPool × ObjectType → Option (Turn (ObjectPool × ObjectType) (ObjectPool × ObjectType))
  | (op, ot) =>
    if 0 < ot.instanceCount then
      some (.again (op.destroyInstance { ot with instances := ot.instances.tail } ot.instances.head?))
    else some (.done (op, ot))

/-- `APB_DestroyObjectType`. -/
def destroyObjectType (fuel : Nat) (op : ObjectPool) (ot : ObjectType) : Option ObjectPool :=
  (Loop.run destroyTurn fuel (op, ot)).map fun r => r.1.freeMem (some ot.addr) sizeofObjectType

/-- A turn of the loop of `APB_FreeObjectPool`. -/
def freeTurn (fuel : Nat) (op : ObjectPool) : Option (Turn ObjectPool ObjectPool) :=
  match op.types.getLast? with
  | none => some (.done (op.freeMem (some op.addr) sizeofObjectPool))
  | some ot => (destroyObjectType fuel { op with types := op.types.dropLast } ot).map Turn.again

/-- `APB_FreeObjectPool`. -/
def freeObjectPool (fuel : Nat) (op : ObjectPool) : Option ObjectPool := Loop.run (freeTurn fuel) fuel op

/-! ## Calls -/

/-- The calls of a client, with the memory that they get. -/
inductive Call where
  | register (id size minInstances maxInstances : UInt16) (mem : List (Option Nat))
  | alloc (id : UInt16) (mem : Option Nat)
  | free (id : UInt16) (obj : Nat)

/-- One call. -/
def step (op : ObjectPool) : Call → Option ObjectPool
  | .register id size minInstances maxInstances mem =>
    some (op.registerObjectType id size minInstances maxInstances mem)
  | .alloc id mem => some (op.allocObject id mem).1
  | .free id obj => some (op.freeObject id obj)

/-- The memory that the pool has: its record, those of the types, and the instances. -/
def blocks (op : ObjectPool) : List Nat :=
  op.addr :: op.types.flatMap fun ot => ot.addr :: (ot.instances ++ ot.inUse)

/-- Memory that is got is not memory that the pool has, and an object that is given back is in use. -/
def Legal (op : ObjectPool) : Call → Prop
  | .register _ _ _ _ mem => (mem.reduceOption).Nodup ∧ ∀ a ∈ mem.reduceOption, a ∉ op.blocks
  | .alloc _ mem => ∀ a ∈ mem, a ∉ op.blocks
  | .free id obj => ∃ ot ∈ op.types, ot.id = id ∧ objToNode obj ∈ ot.inUse

instance (op : ObjectPool) : (c : Call) → Decidable (op.Legal c)
  | .register .. => inferInstanceAs (Decidable (_ ∧ ∀ _ ∈ _, _))
  | .alloc .. => inferInstanceAs (Decidable (∀ _ ∈ _, _))
  | .free .. => inferInstanceAs (Decidable (∃ _ ∈ _, _ ∧ _))

end ObjectPool

end AmiPiBorg.Objects
