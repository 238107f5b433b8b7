import AmiPiBorg.Writer.Stores

/-!
# Ids without packets and calls without writes

* `failed_alloc`: a call of `APB_AllocPacket` that finds no object has taken a packet id already. As long as no call
  fails, the ids on the wire have no gap; `id_lost` is a run with one.
* `write_advances`: `APB_WriteBuffer` begins a write exactly when the head of the queue has something to send. After all
  of the head was sent it may stay the head (`idle_write`).
-/

set_option autoImplicit false

namespace AmiPiBorg.Tx

open ProgLib Writer

variable {x x' : Tx} {S U : List Listed} {h : List Handed} {s : Writer} {ob : ObPtr} {q : List ObPtr}

/-! ## Failed allocations -/

/-- The writer is as it was, with as many objects in use. -/
structure Unchanged (s s' : Writer) : Prop where
  nextPackId : s'.nextPackId = s.nextPackId
  outBuf : s'.outBuf = s.outBuf
  queue : s'.queue = s.queue
  bufCount : s'.bufCount = s.bufCount
  recents : s'.recents = s.recents
  recentCount : s'.recentCount = s.recentCount
  outBuffers : s'.obUse.length = s.obUse.length
  buffers : s'.bufUse.length = s.bufUse.length

/-- A call of `APB_AllocPacket` that gives no packet changes nothing. -/
def FailsCleanly (al : Alloc) (s : Writer) (length : Nat) : Prop :=
  ∀ s', s.allocPacket al length = some (s', none) → Unchanged s s'

/-- The pools have what a call of `APB_AllocPacket` needs, and the length is one of a packet. -/
def Supplied (x : Tx) : Event → Prop
  | .alloc al none length .. => Allocates al (asked x.wr none).1 length
  | _ => True

instance (x : Tx) : (e : Event) → Decidable (Supplied x e)
  | .alloc _ none .. => inferInstanceAs (Decidable (_ ∧ _ ∧ _ ∧ _))
  | .alloc _ (some _) .. => .isTrue trivial
  | .write | .complete | .resend .. => .isTrue trivial

theorem failsCleanly_iff (v : x.Inv S U) (al : Alloc) (length : Nat) :
    FailsCleanly al x.wr length ↔ Allocates al (asked x.wr none).1 length := by
  have hv := valid_asked none v.toValid
  constructor
  · intro hf
    by_contra ha
    obtain ⟨s', hs', hnext, -⟩ := alloc_none hv x.wr.nextPackId ha
    -- the id is gone, whatever else the call did
    have hid := (hf s' hs').nextPackId
    rw [hnext] at hid
    have : x.wr.nextPackId + 1 = x.wr.nextPackId := hid
    simp at this
  · intro ha s' hs'
    obtain ⟨s₁, ob, t, -, ht, -⟩ := alloc_some hv ha x.wr.nextPackId
    have := ht.symm.trans hs'
    simp at this

/-- The ids of so many packets from 1 on. -/
def ids (n : Nat) : List UInt16 := (List.range n).map fun i => UInt16.ofNat (i + 1)

theorem ids_succ (n : Nat) : ids (n + 1) = ids n ++ [UInt16.ofNat (n + 1)] := by simp [ids, List.range_succ]

theorem ids_prefix {l : List UInt16} {n : Nat} (h : l <+: ids n) : l = ids l.length := by
  have hlen : l.length ≤ n := by simpa [ids] using h.length_le
  have htake : l = (ids n).take l.length := List.prefix_iff_eq_take.1 h
  rw [htake, ids, ← List.map_take, List.take_range]
  simp [ids, hlen]

/-- The ids of `APB_AllocPacket` have been taken one after the other. -/
structure Numbered (x : Tx) (h : List Handed) : Prop where
  named : x.allocated.map Incoming.packId = h.map Handed.packId
  own : (h.filter Handed.own).map Handed.packId = ids (h.filter Handed.own).length
  next : x.wr.nextPackId = UInt16.ofNat ((h.filter Handed.own).length + 1)

theorem numbered_start (obs : ObPtr → OutBuffer) (bufs : BufPtr → Buffer) : (start obs bufs).Numbered [] :=
  ⟨rfl, rfl, rfl⟩

theorem nextPackId_asked (packId : Option UInt16) :
    (asked s packId).1.nextPackId = s.nextPackId + if packId.isNone then 1 else 0 := by
  cases packId <;> simp [asked]

theorem nextPackId_alloc (v : s.Valid S U) (al : Alloc) (length : Nat) (packId : UInt16) {s' : Writer}
    {r : Option Addr} (ha : allocPacketWithId al s length packId = some (s', r)) : s'.nextPackId = s.nextPackId := by
  by_cases h : Allocates al s length
  · obtain ⟨s₁, ob, t, -, ht, -, hnext, -⟩ := alloc_some v h packId
    rw [ha] at ht
    cases ht
    exact hnext
  · obtain ⟨t, ht, hnext, -⟩ := alloc_none v packId h
    rw [ha] at ht
    cases ht
    exact hnext

theorem Numbered.step (v : x.Inv S U) (n : x.Numbered h) {e : Event} (hok : Supplied x e)
    (hs : Tx.step x e = some x') : x'.Numbered (h ++ handedBy x e) := by
  have hkeep : x'.allocated = x.allocated → x'.wr.nextPackId = x.wr.nextPackId → handedBy x e = [] →
      x'.Numbered (h ++ handedBy x e) := by
    intro ha hn hh
    rw [hh, List.append_nil]
    exact ⟨by rw [ha, n.named], n.own, by rw [hn, n.next]⟩
  cases e with
  | alloc al packId length type connId payload =>
    obtain ⟨x₁, hstep, -, -, -, hcase⟩ := step_alloc_handed v al packId length type connId payload
    rw [hs, Option.some.injEq] at hstep
    subst hstep
    have hnext : x'.wr.nextPackId = x.wr.nextPackId + if packId.isNone then 1 else 0 := by
      simp only [Tx.step, allocate_eq] at hs
      obtain ⟨⟨w, r⟩, hw, rfl⟩ := Option.map_eq_some_iff.1 hs
      rw [← nextPackId_asked, ← nextPackId_alloc (valid_asked packId v.toValid) al length _ hw]
      cases r with
      | none => rfl
      | some p => exact (sameRoom_fill ..).nextPackId
    rcases hcase with ⟨hnone, -, hall, -⟩ | ⟨ob, p, k, y, hone, -, hid, -, -, -, -, hall, -⟩
    · cases packId with
      | none =>
        -- a call that is supplied hands out a packet
        obtain ⟨s₁, ob, t, -, ht, -⟩ := alloc_some (valid_asked none v.toValid) hok (asked x.wr none).2
        simp [handedBy, allocate_eq, ht] at hnone
      | some packId => exact hkeep hall (by simpa using hnext) hnone
    · rw [hone]
      cases packId with
      | none =>
        have hidNext : (asked x.wr none).2 = UInt16.ofNat ((h.filter Handed.own).length + 1) := n.next
        refine ⟨?_, ?_, ?_⟩
        · simp [hall, n.named, hid]
        · simp only [List.filter_append, List.map_append, n.own]
          simp [ids_succ, hidNext]
        · rw [hnext, n.next]
          simp
      | some packId =>
        refine ⟨?_, ?_, ?_⟩
        · simp [hall, n.named, hid]
        · simpa using n.own
        · rw [hnext, n.next]
          simp
  | write =>
    simp only [Tx.step] at hs
    obtain ⟨⟨w, r⟩, hw, rfl⟩ := Option.map_eq_some_iff.1 hs
    exact hkeep rfl (sameRoom_writeBuffer hw).nextPackId rfl
  | complete =>
    cases hs
    exact hkeep rfl rfl rfl
  | resend al packId =>
    simp only [Tx.step, resendPacket_eq v.toValid, Option.map_some, Option.some.injEq] at hs
    subst hs
    exact hkeep rfl rfl rfl

/-- The packets on the wire are the first that were handed out, and those of `APB_AllocPacket` among them have the ids
from 1 on. -/
def Gapless (x : Tx) (h : List Handed) : Prop :=
  ∃ ps : List WirePacket, x.wire = ps.flatMap WirePacket.bytes ∧ ∃ hs, hs <+: h ∧
    ps.map (fun p => p.incoming.packId) = hs.map Handed.packId ∧
    (hs.filter Handed.own).map Handed.packId = ids (hs.filter Handed.own).length

theorem Numbered.gapless (v : x.Inv S U) (n : x.Numbered h) : Gapless x h := by
  obtain ⟨ps, hwire, hall⟩ := v.wire
  have hpre : ps.map (fun p => p.incoming.packId) <+: h.map Handed.packId := by
    rw [← n.named, hall]
    exact ⟨U.map fun y => y.2.packId, by simp [Function.comp_def]⟩
  refine ⟨ps, hwire, h.take ps.length, List.take_prefix .., ?_, ?_⟩
  · rw [List.map_take, List.prefix_iff_eq_take.1 hpre]
    simp
  · have hown : ((h.take ps.length).filter Handed.own).map Handed.packId <+: ids (h.filter Handed.own).length := by
      rw [← n.own]
      exact ((List.take_prefix ..).filter _).map _
    have := ids_prefix hown
    simpa using this

/-- **A call of `APB_AllocPacket` that fails is never undone**, in any reachable state, and as long as none fails, the
ids on the wire have no gap. -/
theorem failed_alloc (obs : ObPtr → OutBuffer) (bufs : BufPtr → Buffer) (es : List Event) :
    ∃ x : Tx, runs step (start obs bufs) es = some x ∧
      (∀ al length, FailsCleanly al x.wr length ↔ Allocates al (asked x.wr none).1 length) ∧
      (Along Supplied step (start obs bufs) es → Gapless x (handed (start obs bufs) es)) := by
  obtain ⟨x, hx, S, U, v⟩ := reached_inv obs bufs es
  refine ⟨x, hx, failsCleanly_iff v, fun hok => ?_⟩
  obtain ⟨S', U', v', n⟩ : ∃ S' U', x.Inv S' U' ∧ x.Numbered (handed (start obs bufs) es) := by
    have hI : ∃ S U, (start obs bufs).Inv S U ∧ (start obs bufs).Numbered [] :=
      ⟨[], [], start_inv obs bufs, numbered_start obs bufs⟩
    refine noted_inv (fun x h => ∃ S U, x.Inv S U ∧ x.Numbered h) ?_ hI hok hx
    rintro y e y' g ⟨_, _, v, n⟩ hok hs
    obtain ⟨y₁, hy, S', U', v'⟩ := step_inv v e
    rw [hs, Option.some.injEq] at hy
    subst hy
    exact ⟨S', U', v', n.step v hok hs⟩
  exact n.gapless v'

/-- Three packets that can be allocated, and writes. -/
def suppliedThree : List Event := [ask 14, .write, .complete, ask 4090, ask 4000, .write]

theorem failed_alloc_supplied : ∃ x : Tx, runs step fresh suppliedThree = some x ∧
    Gapless x (handed fresh suppliedThree) ∧ (handed fresh suppliedThree).map Handed.packId = [1, 2, 3] ∧
    FailsCleanly .unbounded x.wr 14 ∧ ¬FailsCleanly .unbounded x.wr 5000 := by
  obtain ⟨x, hx, hclean, hgapless⟩ := failed_alloc (fun _ => default) (fun _ => default) suppliedThree
  have hroom : (runs step fresh suppliedThree).map (fun x =>
      ((asked x.wr none).1.currentBuffer .unbounded 14).2.isSome) = some true := by
    decide +kernel
  rw [show runs step fresh suppliedThree = some x from hx, Option.map_some, Option.some.injEq] at hroom
  refine ⟨x, hx, hgapless (by decide +kernel), by decide +kernel, (hclean _ 14).2 ?_, fun hf => ?_⟩
  · exact ⟨by decide, by decide, hroom, rfl⟩
  · exact absurd ((hclean _ 5000).1 hf).2.1 (by decide)

/-- **An id is lost**: the second packet is too large, and the third gets the id 3. -/
theorem id_lost : ¬FailsCleanly .unbounded fresh.wr 5000 ∧
    (handed fresh [ask 14, ask 5000, ask 14]).map Handed.packId = [1, 3] := by
  refine ⟨fun h => ?_, by decide +kernel⟩
  have := ((failsCleanly_iff (start_inv _ _) .unbounded 5000).1 h).2.1
  exact absurd this (by decide)

/-! ## Calls that write nothing -/

/-- Not all of the buffer was sent. -/
def Unsent (s : Writer) (ob : ObPtr) : Prop := (s.obs ob).offset < (s.bufs (s.obs ob).buf).offset

/-- `APB_WriteBuffer` begins a write of one byte at least. -/
def Writes (s : Writer) : Prop := ∃ s' w, s.writeBuffer = some (s', some w) ∧ w.bytes ≠ []

/-- If the line is free and there is something to send in the queue, `APB_WriteBuffer` begins a write. -/
def Advances (x : Tx) : Prop := x.inFlight = none → (∃ ob ∈ x.wr.queue, Unsent x.wr ob) → Writes x.wr

theorem obs_sendPackets {ops : List OutPacket} {r : Writer × List OutPacket} (h : sendPackets ob s ops = some r) :
    r.1.obs = s.obs := by
  induction ops generalizing s r with
  | nil =>
    cases h
    rfl
  | cons op ops ih =>
    simp only [sendPackets] at h
    split at h
    · obtain ⟨c, -, h⟩ := Option.bind_eq_some_iff.1 h
      obtain ⟨r, hr, rfl⟩ := Option.map_eq_some_iff.1 h
      simpa [storeAt] using ih hr
    · obtain ⟨r, hr, rfl⟩ := Option.map_eq_some_iff.1 h
      simpa using ih hr

/-- A buffer with something to send gives a write, and one without gives none. -/
theorem sendBuffer_writes (v : s.Valid S U) (hq : s.queue = ob :: q) :
    (∃ s' w, s.sendBuffer ob = some (s', some w) ∧ w.bytes ≠ []) ↔ Unsent s ob := by
  obtain ⟨U₁, U₂, t, r, -, ht, -⟩ := sendBuffer_valid v hq
  unfold Unsent
  constructor
  · rintro ⟨s', w, h, -⟩
    by_contra hun
    unfold sendBuffer at h
    dsimp only at h
    rw [if_neg hun] at h
    cases h
  · intro hun
    unfold sendBuffer at ht ⊢
    dsimp only at ht ⊢
    rw [if_pos hun] at ht ⊢
    obtain ⟨p, hp, -⟩ := Option.map_eq_some_iff.1 ht
    have hfill := (sameRoom_sendPackets hp).filled (s.obs ob).buf
    refine ⟨_, _, by rw [hp, Option.map_some], fun hnil => ?_⟩
    have hlen := congrArg List.length hnil
    rw [Mem.length_slice] at hlen
    simp only [obs_sendPackets hp, hfill, List.length_nil] at hlen
    omega

theorem writes_iff (v : s.Valid S U) : Writes s ↔ ∃ ob ∈ s.queue.head?, Unsent s ob := by
  unfold Writes writeBuffer
  rcases hq : s.queue with _ | ⟨ob, q⟩
  · simp
  · have hsend := sendBuffer_writes v hq
    simp only [List.head?_cons, Option.mem_def, Option.some.injEq, exists_eq_left', ← hsend]
    constructor
    · rintro ⟨s', w, h, hw⟩
      obtain ⟨⟨t, w'⟩, ht, he⟩ := Option.map_eq_some_iff.1 h
      cases he
      exact ⟨t, w, ht, hw⟩
    · rintro ⟨t, w, ht, hw⟩
      exact ⟨t.popBuffer ob, w, by rw [ht, Option.map_some], hw⟩

/-- **`APB_WriteBuffer` begins a write whenever it can**, if and only if what there is to send begins at the head. -/
theorem write_advances (obs : ObPtr → OutBuffer) (bufs : BufPtr → Buffer) (es : List Event) :
    ∃ x : Tx, runs step (start obs bufs) es = some x ∧
      (Advances x ↔ (x.inFlight = none → (∃ ob ∈ x.wr.queue, Unsent x.wr ob) →
        ∃ ob ∈ x.wr.queue.head?, Unsent x.wr ob)) := by
  obtain ⟨x, hx, S, U, v⟩ := reached_inv obs bufs es
  refine ⟨x, hx, ?_⟩
  unfold Advances
  rw [writes_iff v.toValid]

/-- **A call for nothing**: all of the first buffer was sent before the second one was begun. -/
theorem idle_write : ∃ x : Tx, runs step fresh [ask 14, .write, .complete, ask 4090] = some x ∧ ¬Advances x := by
  obtain ⟨x, hx, S, U, v⟩ := reached_inv (fun _ => default) (fun _ => default) [ask 14, .write, .complete, ask 4090]
  have hx' : runs step fresh [ask 14, .write, .complete, ask 4090] = some x := hx
  have hd : (runs step fresh [ask 14, .write, .complete, ask 4090]).map (fun x => decide (x.inFlight = none ∧
      (∃ ob ∈ x.wr.queue, (x.wr.obs ob).offset < (x.wr.bufs (x.wr.obs ob).buf).offset) ∧
      ∀ ob ∈ x.wr.queue.head?, ¬(x.wr.obs ob).offset < (x.wr.bufs (x.wr.obs ob).buf).offset)) = some true := by
    decide +kernel
  rw [hx', Option.map_some, Option.some.injEq, decide_eq_true_eq] at hd
  obtain ⟨hfree, hsome, hhead⟩ := hd
  refine ⟨x, hx', fun h => ?_⟩
  obtain ⟨ob, hob, hun⟩ := (writes_iff v.toValid).1 (h hfree hsome)
  exact hhead ob hob hun

end AmiPiBorg.Tx
