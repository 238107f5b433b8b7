import AmiPiBorg.Stats.Defs

/-!
# What statistics add up to

A search that does not begin at the tail, which is a null pointer, finds the first node with the type as its signed key
byte. So a type from `128` on is never found, and one below is found in the place of the first type that was registered
with its low byte (`Found`).

* `runs_collects`: what a collector holds after the calls, through `Collects` for one call.
* `runs_isSome_iff`: the calls go well exactly if they are `Clear`.
* `getStat_eq_statSum_iff`: when a stat is the sum of the increments to it.
-/

set_option autoImplicit false

namespace AmiPiBorg.Stats

open ProgLib

/-- The mean of the types `ts`, from a sum that wraps at 16 bits. Of no types it is zero. -/
def mean (ts : List UInt16) : Nat := (ts.map UInt16.toNat).sum % 65536 / ts.length

/-- The type `t` is found among `ts`: it fits in a signed byte, and some type has that low byte. -/
def Found (t : UInt16) (ts : List UInt16) : Prop := t.toNat < 128 ∧ ∃ t' ∈ ts, t'.toNat % 256 = t.toNat

instance (t : UInt16) : DecidablePred (Found t) := fun _ => inferInstanceAs (Decidable (_ ∧ _))

/-- What is made of an increment to `t` is wrong: `t` is registered but not found, or found but not registered. -/
def Astray (t : UInt16) (ts : List UInt16) : Prop := ¬(t ∈ ts ↔ Found t ts)

instance (t : UInt16) : DecidablePred (Astray t) := fun _ => inferInstanceAs (Decidable (¬_))

/-- The calls do not divide by zero or begin a search at the tail: no more than `65535` types are registered, and every
increment is to a type below the mean of those registered before. -/
def Clear : List UInt16 → List Call → Prop
  | _, [] => True
  | ts, .register t allocated :: cs =>
    if allocated then ts.length + 1 < 65536 ∧ Clear (ts ++ [t]) cs else Clear ts cs
  | ts, .increment t _ :: cs => t.toNat < mean ts ∧ Clear ts cs

/-! ## The key -/

/-- The key that a type is kept under, compared with a type. -/
theorem rank_iff (t t' : UInt16) :
    (t'.toUInt8.toInt8).toInt = (t.toNat : Int) ↔ t.toNat < 128 ∧ t'.toNat % 256 = t.toNat := by
  have h : (t'.toUInt8.toInt8).toInt = (BitVec.ofNat 8 t'.toNat).toInt := rfl
  rw [h, BitVec.toInt_eq_toNat_cond, BitVec.toNat_ofNat]
  split <;> omega

/-- The first node that a search for `t` meets. -/
def StatCollector.node (sc : StatCollector) (t : UInt16) : Option StatNode :=
  sc.stats.find? fun sn => sn.rank = (t.toNat : Int)

/-- What is kept under the key of `t`. -/
def StatCollector.value (sc : StatCollector) (t : UInt16) : Int32 := ((sc.node t).map StatNode.value).getD 0

/-- **The collector after registering `ts`.** -/
structure Collects (sc : StatCollector) (ts : List UInt16) : Prop where
  ranked : Ranked StatNode.rank sc.stats
  sum : sc.statTypeSum.toNat = (ts.map UInt16.toNat).sum % 65536
  count : sc.statTypeCount.toNat = ts.length
  mean : sc.statTypeMean.toNat = mean ts
  found : ∀ t, (sc.node t).isSome ↔ Found t ts

theorem collects_create : Collects createStatCollector [] where
  ranked := List.Pairwise.nil
  sum := rfl
  count := rfl
  mean := rfl
  found t := by simp [StatCollector.node, createStatCollector, Found]

variable {sc sc' : StatCollector} {ts : List UInt16} {t t' : UInt16} {v : Int32} {b : Bool} {cs : List Call}

/-! ## Searching -/

/-- **A search begins at the tail** from the mean on, where it reads through a null pointer. -/
theorem findStatNode_eq (h : Collects sc ts) (t : UInt16) :
    findStatNode sc t = if t.toNat < mean ts then some (searchSucc sc.stats t) else none := by
  simp only [findStatNode, lhTail, Option.bind_none, UInt16.le_iff_toNat_le, h.mean]
  by_cases ht : t.toNat < Stats.mean ts
  · rw [if_neg (by omega), if_pos ht]
  · rw [if_pos (by omega), if_neg ht]

/-- What a search of the list comes to. -/
theorem searchSucc_cases (sc : StatCollector) (t : UInt16) : searchSucc sc.stats t = none ∧ sc.node t = none ∨
    ∃ i sn, searchSucc sc.stats t = some i ∧ sc.stats[i]? = some sn ∧ sc.node t = some sn := by
  have hfind : sc.node t = (searchSucc sc.stats t).bind fun i => sc.stats[i]? :=
    List.find?_eq_bind_findIdx?_getElem?
  cases hi : searchSucc sc.stats t with
  | none =>
    rw [hi] at hfind
    exact .inl ⟨rfl, hfind⟩
  | some i =>
    obtain ⟨hlt, -⟩ := List.findIdx?_eq_some_iff_getElem.1 hi
    rw [hi, Option.bind_some, List.getElem?_eq_getElem hlt] at hfind
    exact .inr ⟨i, sc.stats[i], rfl, List.getElem?_eq_getElem hlt, hfind⟩

theorem getStat_eq (h : Collects sc ts) (t : UInt16) :
    getStat sc t = if t.toNat < mean ts then some (sc.value t) else none := by
  rw [getStat, findStatNode_eq h]
  split
  · obtain ⟨hi, hn⟩ | ⟨i, sn, hi, hsn, hn⟩ := searchSucc_cases sc t
    · simp [hi, hn, StatCollector.value]
    · simp [hi, hn, hsn, StatCollector.value]
  · rfl

/-! ## One call -/

/-- A registration is possible as long as the number of types fits in 16 bits. -/
theorem registerStat_isSome_iff (h : Collects sc ts) : (registerStat sc t true).isSome ↔ ts.length + 1 < 65536 := by
  have hc : sc.statTypeCount + 1 = 0 ↔ ¬ts.length + 1 < 65536 := by
    have hlt := sc.statTypeCount.toNat_lt
    rw [← UInt16.toNat_inj, UInt16.toNat_add, h.count]
    rw [h.count] at hlt
    show (ts.length + 1) % 65536 = 0 ↔ _
    omega
  simp only [registerStat, if_true, hc]
  split
  · next hn => simp [hn]
  · next hn => simp [not_not.1 hn]

theorem registerStat_eq (hs : registerStat sc t' true = some sc') : sc' =
    { stats := enqueue StatNode.rank sc.stats ⟨t'.toUInt8.toInt8, 0⟩
      statTypeSum := sc.statTypeSum + t'
      statTypeCount := sc.statTypeCount + 1
      statTypeMean := (sc.statTypeSum + t') / (sc.statTypeCount + 1) } := by
  simp only [registerStat, if_true] at hs
  split at hs
  · cases hs
  · exact (Option.some.inj hs).symm

theorem found_append : Found t (ts ++ [t']) ↔ Found t ts ∨ Found t [t'] := by
  simp only [Found, List.mem_append, or_and_right, exists_or, and_or_left]

theorem node_register (h : Collects sc ts) (hs : registerStat sc t' true = some sc') (t : UInt16) :
    sc'.node t = (sc.node t).or (if Found t [t'] then some ⟨t'.toUInt8.toInt8, 0⟩ else none) := by
  have hf : StatNode.rank ⟨t'.toUInt8.toInt8, 0⟩ = (t.toNat : Int) ↔ Found t [t'] := by
    rw [StatNode.rank, rank_iff]
    simp [Found]
  rw [registerStat_eq hs, StatCollector.node, find?_enqueue h.ranked]
  simp only [hf, StatCollector.node]

/-- **A registration adds the type**, and changes nothing that is kept. -/
theorem Collects.register (h : Collects sc ts) (hs : registerStat sc t' true = some sc') :
    Collects sc' (ts ++ [t']) ∧ ∀ t, sc'.value t = sc.value t := by
  have hnode := node_register h hs
  have hl := (registerStat_isSome_iff h).1 (Option.isSome_of_mem hs)
  have hsum : (sc.statTypeSum + t').toNat = ((ts ++ [t']).map UInt16.toNat).sum % 65536 := by
    rw [UInt16.toNat_add, h.sum]
    simp
  have hcount : (sc.statTypeCount + 1).toNat = (ts ++ [t']).length := by
    rw [UInt16.toNat_add, h.count, List.length_append, List.length_singleton]
    exact Nat.mod_eq_of_lt hl
  have he := registerStat_eq hs
  constructor
  · refine ⟨?_, ?_, ?_, ?_, fun t => ?_⟩
    · rw [he]
      exact h.ranked.enqueue _
    · rw [he]
      exact hsum
    · rw [he]
      exact hcount
    · rw [he, UInt16.toNat_div, hsum, hcount]
      rfl
    · rw [hnode, Option.isSome_or, Bool.or_eq_true, h.found, found_append]
      refine or_congr_right ?_
      split <;> simp [*]
  · intro t
    rw [StatCollector.value, StatCollector.value, hnode]
    cases sc.node t with
    | some sn => rfl
    | none => split <;> rfl

/-- An increment is possible below the mean. -/
theorem incrementStat_isSome_iff (h : Collects sc ts) : (incrementStat sc t v).isSome ↔ t.toNat < mean ts := by
  rw [incrementStat, findStatNode_eq h]
  split <;> simp [*]

/-- A collector with `v` added to the value of the node `i`. -/
def StatCollector.adding (sc : StatCollector) (i : Nat) (v : Int32) : StatCollector :=
  { sc with stats := sc.stats.modify i fun sn => { sn with value := sn.value + v } }

theorem searchSucc_none_iff (h : Collects sc ts) : searchSucc sc.stats t = none ↔ ¬Found t ts := by
  rw [← h.found]
  obtain ⟨hi, hn⟩ | ⟨i, sn, hi, -, hn⟩ := searchSucc_cases sc t <;> simp [hi, hn]

theorem incrementStat_cases (h : Collects sc ts) (hs : incrementStat sc t v = some sc') :
    ¬Found t ts ∧ sc' = sc ∨ Found t ts ∧ ∃ i, searchSucc sc.stats t = some i ∧ sc' = sc.adding i v := by
  have hm := (incrementStat_isSome_iff h).1 (Option.isSome_of_mem hs)
  rw [incrementStat, findStatNode_eq h, if_pos hm, Option.map_some, Option.some_inj] at hs
  cases hi : searchSucc sc.stats t with
  | none =>
    simp only [hi] at hs
    exact .inl ⟨(searchSucc_none_iff h).1 hi, hs.symm⟩
  | some i =>
    simp only [hi] at hs
    refine .inr ⟨?_, i, rfl, hs.symm⟩
    by_contra hf
    rw [(searchSucc_none_iff h).2 hf] at hi
    cases hi

/-- The first node of the type is changed, and nothing is found elsewhere. -/
theorem node_adding {i : Nat} (hi : searchSucc sc.stats t' = some i) (v : Int32) (t : UInt16) :
    (sc.adding i v).node t =
      if t' = t then (sc.node t).map fun sn => { sn with value := sn.value + v } else sc.node t := by
  split
  · next ht =>
    subst ht
    exact find?_modify_self (fun _ => rfl) hi
  · next ht =>
    refine find?_modify_other (fun _ => rfl) (fun sn hsn => ?_) hi
    have hne : (t'.toNat : Int) ≠ t.toNat := fun he => ht (UInt16.toNat_inj.1 (by omega))
    simp only [decide_eq_true_eq] at hsn
    simpa [hsn] using hne

theorem Collects.adding (h : Collects sc ts) {i : Nat} (hi : searchSucc sc.stats t' = some i) (v : Int32) :
    Collects (sc.adding i v) ts where
  ranked := by
    have hrank : ∀ sn : StatNode, StatNode.rank { sn with value := sn.value + v } = sn.rank := fun _ => rfl
    exact h.ranked.congr (map_modify StatNode.rank hrank sc.stats i)
  sum := h.sum
  count := h.count
  mean := h.mean
  found t := by
    rw [node_adding hi, ← h.found]
    split <;> simp

/-- **An increment adds to what is found**, and to nothing else. -/
theorem Collects.increment (h : Collects sc ts) (hs : incrementStat sc t' v = some sc') :
    Collects sc' ts ∧ ∀ t, sc'.value t = sc.value t + if t' = t ∧ Found t ts then v else 0 := by
  obtain ⟨hf, rfl⟩ | ⟨-, i, hi, rfl⟩ := incrementStat_cases h hs
  · refine ⟨h, fun t => ?_⟩
    have hnot : ¬(t' = t ∧ Found t ts) := by
      rintro ⟨rfl, hf'⟩
      exact hf hf'
    rw [if_neg hnot, Int32.add_zero]
  · refine ⟨h.adding hi v, fun t => ?_⟩
    rw [StatCollector.value, StatCollector.value, node_adding hi]
    by_cases ht : t' = t
    · simp only [ht, if_true, true_and, ← h.found]
      cases sc.node t with
      | none => simp
      | some sn => simp
    · simp [ht]

/-! ## Runs -/

/-- **What a collector holds after the calls** `cs`. -/
theorem runs_collects (h : Collects sc ts) (hr : runs step sc cs = some sc') :
    Collects sc' (ts ++ registered cs) ∧ ∀ t, sc'.value t = sc.value t + added (Found t) t ts cs := by
  induction cs generalizing sc ts with
  | nil =>
    cases hr
    exact ⟨by rwa [registered, List.append_nil], fun t => (Int32.add_zero _).symm⟩
  | cons c cs ih =>
    obtain ⟨sm, hs, hr'⟩ := runs_cons_some hr
    cases c with
    | register t' b =>
      cases b with
      | true =>
        obtain ⟨hm, hv⟩ := h.register hs
        obtain ⟨hc, ha⟩ := ih hm hr'
        refine ⟨?_, fun t => ?_⟩
        · rwa [List.append_assoc] at hc
        · rw [ha, hv]
          rfl
      | false =>
        cases hs
        exact ih h hr'
    | increment t' v =>
      obtain ⟨hm, hv⟩ := h.increment hs
      obtain ⟨hc, ha⟩ := ih hm hr'
      refine ⟨hc, fun t => ?_⟩
      rw [ha, hv, added, Int32.add_assoc]

/-- **The calls go well** exactly if they are clear. -/
theorem runs_isSome_iff (h : Collects sc ts) : (runs step sc cs).isSome ↔ Clear ts cs := by
  induction cs generalizing sc ts with
  | nil => simp [Clear]
  | cons c cs ih =>
    cases c with
    | register t b =>
      cases b with
      | true =>
        have hi := registerStat_isSome_iff (t := t) h
        cases hs : registerStat sc t true with
        | none =>
          rw [hs] at hi
          simp [Clear, runs, step, hs, ← hi]
        | some sm =>
          rw [hs] at hi
          simp [Clear, runs, step, hs, ← hi, ih (h.register hs).1]
      | false => simpa [Clear, runs, step, registerStat] using ih h
    | increment t v =>
      have hi := incrementStat_isSome_iff (t := t) (v := v) h
      cases hs : incrementStat sc t v with
      | none =>
        rw [hs] at hi
        simp [Clear, runs, step, hs, ← hi]
      | some sm =>
        rw [hs] at hi
        simp [Clear, runs, step, hs, ← hi, ih (h.increment hs).1]

/-! ## What is found against what is registered -/

/-- A type from `128` on is never found. -/
theorem added_found_of_ge (ht : 128 ≤ t.toNat) (ts : List UInt16) (cs : List Call) : added (Found t) t ts cs = 0 := by
  induction cs generalizing ts with
  | nil => rfl
  | cons c cs ih =>
    cases c with
    | register t' b => exact ih _
    | increment t' v =>
      have hn : ¬Found t ts := fun hf => by
        have := hf.1
        omega
      simp [added, hn, ih]

/-- Its increments all go astray. -/
theorem added_astray_of_ge (ht : 128 ≤ t.toNat) (ts : List UInt16) (cs : List Call) :
    added (Astray t) t ts cs = added (fun ts => t ∈ ts) t ts cs := by
  induction cs generalizing ts with
  | nil => rfl
  | cons c cs ih =>
    cases c with
    | register t' b => exact ih _
    | increment t' v =>
      have hn : ¬Found t ts := fun hf => by
        have := hf.1
        omega
      simp [added, Astray, hn, ih]

/-- A registered type below `128` is found, so the increments that go astray are those made before. -/
theorem added_found_of_lt (ht : t.toNat < 128) (ts : List UInt16) (cs : List Call) :
    added (Found t) t ts cs = added (fun ts => t ∈ ts) t ts cs + added (Astray t) t ts cs := by
  induction cs generalizing ts with
  | nil => rfl
  | cons c cs ih =>
    cases c with
    | register t' b => exact ih _
    | increment t' v =>
      have hf : t ∈ ts → Found t ts := fun hm => ⟨ht, t, hm, by omega⟩
      simp only [added, ih, Astray]
      by_cases hm : t ∈ ts
      · simp [hm, hf hm, Int32.add_assoc]
      · by_cases hg : Found t ts
        · simp only [hm, hg, false_iff, not_true_eq_false, not_false_eq_true, and_true, and_false, if_false,
            Int32.zero_add]
          rw [← Int32.add_assoc, ← Int32.add_assoc, Int32.add_comm (ite _ _ _)]
        · simp [hm, hg]

/-- What is found adds up to what it should exactly if the increments that go astray add up to nothing. -/
theorem added_found_eq_iff (ts : List UInt16) (cs : List Call) :
    added (Found t) t ts cs = added (fun ts => t ∈ ts) t ts cs ↔ added (Astray t) t ts cs = 0 := by
  by_cases ht : t.toNat < 128
  · rw [added_found_of_lt ht, Int32.add_eq_left]
  · rw [added_found_of_ge (by omega), ← added_astray_of_ge (by omega)]
    exact eq_comm

/-- **A stat is the sum of the increments to it** exactly if the calls are clear, its type lies below the mean of the
registered ones, and the increments to it that go astray add up to nothing. -/
theorem getStat_eq_statSum_iff (cs : List Call) (t : UInt16) :
    (∃ sc, runs step createStatCollector cs = some sc ∧ getStat sc t = some (statSum t cs)) ↔
      Clear [] cs ∧ t.toNat < mean (registered cs) ∧ added (Astray t) t [] cs = 0 := by
  rw [← runs_isSome_iff collects_create, ← added_found_eq_iff]
  cases hr : runs step createStatCollector cs with
  | none => simp
  | some sc =>
    obtain ⟨hc, hv⟩ := runs_collects collects_create hr
    rw [List.nil_append] at hc
    have hv : sc.value t = added (Found t) t [] cs := (hv t).trans (Int32.zero_add _)
    simp only [Option.some_inj, exists_eq_left', getStat_eq hc, hv, Option.isSome_some, true_and, statSum]
    by_cases hm : t.toNat < mean (registered cs)
    · simp [hm]
    · simp [hm]

/-- The first type that is registered is the mean, so that the search for it begins at the tail; of two other types, the
one below the mean does not fit its key. -/
theorem getStat_ne_statSum :
    (runs step createStatCollector [.register 5 true]).bind (getStat · 5) = none ∧
    (runs step createStatCollector [.register 1000 true, .register 200 true, .increment 200 7]).bind (getStat · 200) =
      some 0 ∧
    statSum 200 [.register 1000 true, .register 200 true, .increment 200 7] = 7 ∧
    ¬ ∀ (cs : List Call) (t : UInt16), (registered cs).Nodup →
      ∃ sc, runs step createStatCollector cs = some sc ∧ getStat sc t = some (statSum t cs) := by
  have h₅ : (runs step createStatCollector [.register 5 true]).bind (getStat · 5) = none := by decide +kernel
  refine ⟨h₅, by decide +kernel, by decide +kernel, fun h => ?_⟩
  obtain ⟨sc, hs, hg⟩ := h [.register 5 true] 5 (by decide)
  rw [hs, Option.bind_some, hg] at h₅
  cases h₅

end AmiPiBorg.Stats
