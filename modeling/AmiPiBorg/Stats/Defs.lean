import AmiPiBorg.Lib.Ranked
import AmiPiBorg.Lib.Runs

/-!
# Statistics (`library/stats.c`)

A stat collector has a list of nodes, one for each registered stat type, and a running mean of the types as a hint where
a search should start. No value of a search, a registration or an increment means that it reads through a null pointer
or divides by zero.
-/

set_option autoImplicit false

namespace AmiPiBorg.Stats

open ProgLib

/-- `struct StatNode`. The type is kept in `ln_Pri`, a `BYTE`. -/
structure StatNode where
  pri : Int8
  value : Int32
deriving DecidableEq, Repr

/-- `ln_Pri` as an integer: what `Enqueue` goes by, and what a type is compared with. -/
abbrev StatNode.rank (sn : StatNode) : Int := sn.pri.toInt

/-- `struct StatCollector`. The nodes of the list stand in order, from `lh_Head` on. -/
structure StatCollector where
  stats : List StatNode
  statTypeSum : UInt16
  statTypeCount : UInt16
  statTypeMean : UInt16
deriving DecidableEq, Repr

/-- `APB_CreateStatCollector`. -/
def createStatCollector : StatCollector := ⟨[], 0, 0, 0⟩

/-- The `lh_Tail` of an Exec list is always `NULL`. A pointer into the list is given by a position: `0` is the header and
`i + 1` the node `i`. -/
def lhTail (_ : List StatNode) : Option Nat := none

/-- The loop over the `ln_Pred`s, from the position of `sn` on. The header's is `NULL`. -/
def searchPred (stats : List StatNode) (statType : UInt16) : Nat → Option (Option Nat)
  | 0 => some none
  | i + 1 => (stats[i]?).bind fun sn =>
    if sn.rank = (statType.toNat : Int) then some (some i) else searchPred stats statType i

/-- The loop over the `ln_Succ`s, from `lh_Head` on. -/
def searchSucc (stats : List StatNode) (statType : UInt16) : Option Nat :=
  stats.findIdx? fun sn => sn.rank = (statType.toNat : Int)

/-- `APB_FindStatNode`: the place of the node in the list, if there is one. -/
def findStatNode (sc : StatCollector) (statType : UInt16) : Option (Option Nat) :=
  if sc.statTypeMean ≤ statType then
    -- the condition of the loop reads `sn->ln_Pred`
    (lhTail sc.stats).bind (searchPred sc.stats statType)
  else some (searchSucc sc.stats statType)

/-- `APB_RegisterStat`, told whether there is memory for a node. -/
def registerStat (sc : StatCollector) (statType : UInt16) (allocated : Bool) : Option StatCollector :=
  if allocated then
    if sc.statTypeCount + 1 = 0 then none
    else some
      { stats := enqueue StatNode.rank sc.stats ⟨statType.toUInt8.toInt8, 0⟩
        statTypeSum := sc.statTypeSum + statType
        statTypeCount := sc.statTypeCount + 1
        statTypeMean := (sc.statTypeSum + statType) / (sc.statTypeCount + 1) }
  else some sc

/-- `APB_IncrementStat`. -/
def incrementStat (sc : StatCollector) (statType : UInt16) (value : Int32) : Option StatCollector :=
  (findStatNode sc statType).map fun sn =>
    match sn with
    | none => sc
    | some i => { sc with stats := sc.stats.modify i fun sn => { sn with value := sn.value + value } }

/-- `APB_GetStat`. -/
def getStat (sc : StatCollector) (statType : UInt16) : Option Int32 :=
  (findStatNode sc statType).bind fun sn =>
    match sn with
    | none => some 0
    | some i => (sc.stats[i]?).map StatNode.value

/-- The calls that change a collector. -/
inductive Call
  | register (statType : UInt16) (allocated : Bool)
  | increment (statType : UInt16) (value : Int32)
deriving DecidableEq, Repr

/-- One call. -/
def step (sc : StatCollector) : Call → Option StatCollector
  | .register statType allocated => registerStat sc statType allocated
  | .increment statType value => incrementStat sc statType value

/-! ## What the calls are for -/

/-- The types that are registered. -/
def registered : List Call → List UInt16
  | [] => []
  | .register t allocated :: cs => if allocated then t :: registered cs else registered cs
  | .increment _ _ :: cs => registered cs

/-- The increments to `t` that are made while the types registered so far, `ts` at first, meet a condition. -/
def added (P : List UInt16 → Prop) [DecidablePred P] (t : UInt16) : List UInt16 → List Call → Int32
  | _, [] => 0
  | ts, .register t' allocated :: cs => added P t (if allocated then ts ++ [t'] else ts) cs
  | ts, .increment t' value :: cs => (if t' = t ∧ P ts then value else 0) + added P t ts cs

/-- **What a stat should be**: the sum of the increments to it since its registration. -/
def statSum (t : UInt16) (cs : List Call) : Int32 := added (fun ts => t ∈ ts) t [] cs

end AmiPiBorg.Stats
