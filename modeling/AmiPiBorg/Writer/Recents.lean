import AmiPiBorg.Writer.Transmit

/-!
# The recent packets

What the writer keeps of the packets that it has handed out (`recents_kept`): the list of recent packets is the end of
all packets in the order of allocation, sent packets come first on it, only sent packets are dropped from it, and the
last `RECENT_PACKETS_TO_KEEP` packets are always there. The counters are 16 bits wide; the pools are what keeps them
from wrapping round (`Limited`).
-/

set_option autoImplicit false

namespace AmiPiBorg

open ProgLib

/-- `MAX_BUFFERS`. -/
def maxBuffers : Nat := 16

namespace Tx

open Writer

/-- The pools are those of `APB_CreatePacketWriter`, which have so many objects at most. -/
structure Limited (al : Alloc) : Prop where
  outBuffer : ∀ s, (al.outBuffer s).isSome = true → s.obUse.length < maxBuffers
  outPacket : ∀ s, al.outPacket s = true → s.recents.length < maxBuffers * 10

/-- The pools that an event asks have their limits. -/
def Event.Limited : Event → Prop
  | .alloc al .. => Tx.Limited al
  | .resend al _ => Tx.Limited al
  | _ => True

/-- **What is kept of the packets `h`** that were handed out. -/
structure Retains (s : Writer) (h : List Handed) : Prop where
  recentCount : s.recentCount = s.recents.length
  /-- The listed packets are the last ones, in the order in which they were handed out. -/
  order : s.recents.map OutPacket.pac <:+ h.map Handed.pac
  sentFirst : ∃ n, (∀ op ∈ s.recents.take n, op.sent = true) ∧ ∀ op ∈ s.recents.drop n, op.sent = false
  latest : min h.length recentPacketsToKeep ≤ s.recents.length
  bufCount : s.bufCount = s.queue.length
  outBuf : ∀ ob, s.outBuf = some ob → s.queue.getLast? = some ob
  packetCount : ∀ ob, (ob ∈ s.queue ∨ ∃ op ∈ s.recents, op.outBuf = ob) →
    (s.obs ob).packetCount = s.recents.countP fun op => op.outBuf = ob

/-- The step drops only packets that are sent: what it leaves on the list is the end of what was there, and the packet
that it hands out. -/
def DropsSent (x : Tx) (e : Event) : Prop :=
  ∃ x', step x e = some x' ∧ ∃ k, (∀ op ∈ x.wr.recents.take k, op.sent = true) ∧
    x'.wr.recents.map OutPacket.pac = (x.wr.recents.drop k).map OutPacket.pac ++ (handedBy x e).map Handed.pac

variable {x x' : Tx} {S U V : List Listed} {h : List Handed} {s s' : Writer} {al : Alloc} {ob : ObPtr}
  {length : Nat} {packId : UInt16} {r : Option Addr}

/-! ## The objects in use -/

theorem obUse_releaseOutPacket (s : Writer) (op : OutPacket) :
    (s.releaseOutPacket op).obUse.length ≤ s.obUse.length := by
  simp only [releaseOutPacket]
  split
  · exact List.length_erase_le
  · exact Nat.le_refl _

theorem obUse_trim {ops : List OutPacket} (h : trim ops s = some s') : s'.obUse.length ≤ s.obUse.length := by
  induction ops generalizing s with
  | nil =>
    simp only [trim] at h
    split at h
    · cases h
      exact Nat.le_refl _
    · cases h
  | cons op ops ih =>
    simp only [trim] at h
    split at h
    · cases h
      exact Nat.le_refl _
    · split at h
      · exact Nat.le_trans (ih h) (obUse_releaseOutPacket s op)
      · cases h
        exact Nat.le_refl _

theorem obUse_newOutBuffer (hal : Limited al) (hs : s.obUse.length ≤ maxBuffers) :
    (s.newOutBuffer al).1.obUse.length ≤ maxBuffers := by
  unfold newOutBuffer
  cases hob : al.outBuffer s with
  | none => exact hs
  | some ob =>
    have hlt := hal.outBuffer s (by simp [hob])
    dsimp only
    cases al.buffer { s with obUse := ob :: s.obUse } with
    | none => exact hlt
    | some b => exact hlt

theorem obUse_currentBuffer (length : Nat) (hal : Limited al) (hs : s.obUse.length ≤ maxBuffers) :
    (s.currentBuffer al length).1.obUse.length ≤ maxBuffers := by
  unfold currentBuffer
  split
  · exact obUse_newOutBuffer hal hs
  · split
    · exact obUse_newOutBuffer hal hs
    · exact hs

@[simp] theorem obUse_setOb {v : OutBuffer} : (s.setOb ob v).obUse = s.obUse := rfl

@[simp] theorem obUse_setBuf {b : BufPtr} {v : Buffer} : (s.setBuf b v).obUse = s.obUse := rfl

@[simp] theorem obUse_storeAt {p : Addr} {bs : List UInt8} : (s.storeAt p bs).obUse = s.obUse := rfl

@[simp] theorem obUse_addPacket : (s.addPacket ob length packId).1.obUse = s.obUse := by
  unfold addPacket
  by_cases hodd : length % 2 = 1
  · simp [hodd]
  · simp [hodd]

/-- **No more objects are in use than the pool has.** -/
theorem obUse_alloc (hal : Limited al) (hs : s.obUse.length ≤ maxBuffers)
    (ha : allocPacketWithId al s length packId = some (s', r)) : s'.obUse.length ≤ maxBuffers := by
  unfold allocPacketWithId at ha
  split at ha
  · cases ha
    exact hs
  · split at ha
    · cases ha
      exact hs
    · have hcur := obUse_currentBuffer length hal hs
      rcases hc : s.currentBuffer al length with ⟨s₁, _ | ob⟩ <;> rw [hc] at ha hcur
      · cases ha
        exact hcur
      · dsimp only at ha
        split at ha
        · obtain ⟨t, ht, he⟩ := Option.map_eq_some_iff.1 ha
          cases he
          have hle := obUse_trim ht
          rw [obUse_addPacket] at hle
          exact Nat.le_trans hle hcur
        · cases ha
          exact hcur

theorem obUse_step (hs : x.wr.obUse.length ≤ maxBuffers) (v : x.Inv S U) {e : Event} (he : e.Limited)
    (h : step x e = some x') : x'.wr.obUse.length ≤ maxBuffers := by
  cases e with
  | alloc al packId length type connId payload =>
    simp only [step, allocate_eq] at h
    obtain ⟨⟨w, r⟩, ha, rfl⟩ := Option.map_eq_some_iff.1 h
    have hask : (asked x.wr packId).1.obUse = x.wr.obUse := by cases packId <;> rfl
    have hw := obUse_alloc he (by rw [hask]; exact hs) ha
    cases r <;> exact hw
  | write =>
    obtain ⟨x₁, U₁, U₂, -, hstep, -, -, -, huse, -⟩ := step_write_marked v
    rw [h, Option.some.injEq] at hstep
    rw [hstep, huse.obUse]
    exact hs
  | complete =>
    cases h
    exact hs
  | resend al packId =>
    simp only [step, resendPacket_eq v.toValid, Option.map_some, Option.some.injEq] at h
    rw [← h]
    exact hs

/-! ## The invariant -/

/-- The listed packets are the last ones of `h`, and not too few. -/
structure Keeping (x : Tx) (h : List Handed) (S U : List Listed) : Prop extends x.Inv S U where
  order : (S ++ U).map (fun y => y.1.pac) <:+ h.map Handed.pac
  latest : min h.length recentPacketsToKeep ≤ (S ++ U).length
  listed : (S ++ U).length ≤ maxBuffers * 10
  use : x.wr.obUse.length ≤ maxBuffers

theorem keeping_start (obs : ObPtr → OutBuffer) (bufs : BufPtr → Buffer) : (start obs bufs).Keeping [] [] [] :=
  ⟨start_inv obs bufs, List.suffix_rfl, Nat.zero_le _, Nat.zero_le _, Nat.zero_le _⟩

/-- A pool that has another packet has handed out fewer than it may. -/
theorem listed_lt (v : x.Inv S U) (hal : Limited al) {packId : Option UInt16}
    (ha : Allocates al (asked x.wr packId).1 length) : (S ++ U).length < maxBuffers * 10 := by
  obtain ⟨-, hle, -, hp⟩ := ha
  have hv := valid_asked packId v.toValid
  obtain ⟨-, -, hsame, -⟩ := currentBuffer_good al hv.toGood hle
  have hlt := hal.outPacket _ hp
  rw [hsame.recents, hv.recents, List.length_map] at hlt
  exact hlt

theorem Keeping.step (k : x.Keeping h S U) {e : Event} (he : e.Limited) (hs : Tx.step x e = some x') :
    ∃ S' U', x'.Keeping (h ++ handedBy x e) S' U' := by
  have huse := obUse_step k.use k.toInv he hs
  cases e with
  | alloc al packId length type connId payload =>
    obtain ⟨x₁, hstep, -, -, -, hcase⟩ := step_alloc_handed k.toInv al packId length type connId payload
    rw [hs, Option.some.injEq] at hstep
    subst hstep
    rcases hcase with ⟨hnone, hv, -⟩ | ⟨ob, p, n, y, hone, hy, -, hal, hnS, hnc, hv, -⟩
    · rw [hnone, List.append_nil]
      exact ⟨S, U, hv, k.order, k.latest, k.listed, huse⟩
    · have hlt := listed_lt k.toInv he hal
      have hcount := k.recentCount
      rw [hone]
      refine ⟨_, _, hv, ?_, ?_, ?_, huse⟩
      · obtain ⟨front, hfront⟩ := k.order
        refine ⟨front ++ (S.take n).map (fun y => y.1.pac), ?_⟩
        have hsplit : (S ++ U).map (fun y => y.1.pac) = (S.take n).map (fun y => y.1.pac) ++
            (S.drop n ++ U).map (fun y => y.1.pac) := by
          rw [← List.map_append, ← List.append_assoc, List.take_append_drop]
        have hmap (y : Handed) : (h ++ [y]).map Handed.pac = h.map Handed.pac ++ [y.pac] := by simp
        rw [hmap, ← hfront, hsplit]
        simp [hy]
      · have hlatest := k.latest
        simp only [List.length_append, List.length_drop, List.length_singleton, maxBuffers, recentPacketsToKeep] at *
        omega
      · simp only [List.length_append, List.length_drop, List.length_singleton, maxBuffers] at *
        omega
  | write =>
    obtain ⟨x₁, U₁, U₂, hU, hstep, hv, -⟩ := step_write_marked k.toInv
    rw [hs, Option.some.injEq] at hstep
    subst hstep
    have hmark : (S ++ U₁.map mark ++ U₂).map (fun y => y.1.pac) = (S ++ U).map (fun y => y.1.pac) := by
      simp [hU, mark]
    have hlen : (S ++ U₁.map mark ++ U₂).length = (S ++ U).length := by simp [hU]
    refine ⟨_, _, hv, ?_, ?_, ?_, huse⟩
    · rw [hmark]
      simpa [handedBy] using k.order
    · rw [hlen]
      simpa [handedBy] using k.latest
    · rw [hlen]
      exact k.listed
  | complete =>
    cases hs
    exact ⟨S, U, ⟨k.toValid, k.wire⟩, by simpa [handedBy] using k.order, by simpa [handedBy] using k.latest,
      k.listed, huse⟩
  | resend al packId =>
    simp only [Tx.step, resendPacket_eq k.toValid, Option.map_some, Option.some.injEq] at hs
    subst hs
    exact ⟨S, U, k.toInv, by simpa [handedBy] using k.order, by simpa [handedBy] using k.latest, k.listed, huse⟩

theorem Keeping.retains (k : x.Keeping h S U) : Retains x.wr h := by
  have hlen : x.wr.recents.length = (S ++ U).length := by simp [k.recents]
  have hsent : (x.wr.recents.take S.length = S.map Prod.fst) ∧ x.wr.recents.drop S.length = U.map Prod.fst := by
    rw [k.recents, List.map_append]
    exact ⟨List.take_left' (by simp), List.drop_left' (by simp)⟩
  constructor
  · have hlisted := k.listed
    rw [hlen, k.recentCount]
    simp only [maxBuffers] at hlisted
    omega
  · have horder := k.order
    rw [k.recents, List.map_map]
    exact horder
  · refine ⟨S.length, ?_, ?_⟩
    · rw [hsent.1]
      intro op hop
      obtain ⟨y, hy, rfl⟩ := List.mem_map.1 hop
      exact (k.sent y hy).sent
    · rw [hsent.2]
      intro op hop
      obtain ⟨y, hy, rfl⟩ := List.mem_map.1 hop
      exact (k.pending.owner y hy).2
  · rw [hlen]
    exact k.latest
  · have hle : x.wr.queue.length ≤ x.wr.obUse.length :=
      (k.pools.nodup.subperm fun c hc => k.pools.obUse c (.inl hc)).length_le
    have huse := k.use
    rw [k.pools.bufCount]
    simp only [maxBuffers] at huse
    omega
  · intro ob hob
    rw [← k.pools.outBuf, hob]
  · intro ob hob
    have howners : owners (S ++ U) = x.wr.recents.map OutPacket.outBuf := by
      rw [k.recents, List.map_map]
      rfl
    have hlive : x.wr.Live (owners (S ++ U)) ob := by
      rw [howners]
      exact hob.imp_right fun ⟨op, hop, ho⟩ => List.mem_map.2 ⟨op, hop, ho⟩
    rw [k.pools.count ob hlive, howners, List.count_eq_countP, List.countP_map]
    simp [Function.comp_def]
    rfl

/-- What is dropped is sent. -/
theorem dropsSent (v : x.Inv S U) (e : Event) : DropsSent x e := by
  have hkeep : ∀ x', step x e = some x' → x'.wr.recents.map OutPacket.pac = x.wr.recents.map OutPacket.pac →
      handedBy x e = [] → DropsSent x e := by
    intro x' hs hr hh
    refine ⟨x', hs, 0, by simp, ?_⟩
    simp [hr, hh]
  cases e with
  | alloc al packId length type connId payload =>
    obtain ⟨x', hstep, -, -, -, hcase⟩ := step_alloc_handed v al packId length type connId payload
    rcases hcase with ⟨hnone, hv, -⟩ | ⟨ob, p, n, y, hone, hy, -, -, hnS, -, hv, -⟩
    · exact hkeep x' hstep (by rw [hv.recents, v.recents]) hnone
    · refine ⟨x', hstep, n, ?_, ?_⟩
      · intro op hop
        rw [v.recents, List.map_append, List.take_append_of_le_length (by simpa using hnS), ← List.map_take] at hop
        obtain ⟨z, hz, rfl⟩ := List.mem_map.1 hop
        exact (v.sent z (List.mem_of_mem_take hz)).sent
      · rw [hone, hv.recents, v.recents, ← List.map_drop, List.drop_append_of_le_length hnS]
        simp [hy]
  | write =>
    obtain ⟨x', U₁, U₂, hU, hstep, hv, -⟩ := step_write_marked v
    refine hkeep x' hstep ?_ rfl
    rw [hv.recents, v.recents, hU]
    simp [mark]
  | complete => exact hkeep _ rfl rfl rfl
  | resend al packId =>
    refine hkeep x ?_ rfl rfl
    simp only [step, resendPacket_eq v.toValid, Option.map_some]

/-- **The writer keeps its recent packets**, in every run, as long as the pools keep to their limits. -/
theorem recents_kept (obs : ObPtr → OutBuffer) (bufs : BufPtr → Buffer) (es : List Event) (hes : ∀ e ∈ es, e.Limited) :
    ∃ x : Tx, runs step (start obs bufs) es = some x ∧ Retains x.wr (handed (start obs bufs) es) ∧
      ∀ e, DropsSent x e := by
  obtain ⟨x, hx, -⟩ := reached_inv obs bufs es
  obtain ⟨S, U, k⟩ : ∃ S U, x.Keeping (handed (start obs bufs) es) S U := by
    have hlim : Along (fun _ e => e.Limited) step (start obs bufs) es := along_of_mem (fun e he _ => hes e he) _
    refine noted_inv (fun x h => ∃ S U, x.Keeping h S U) ?_ ⟨[], [], keeping_start obs bufs⟩ hlim hx
    rintro _ _ _ _ ⟨_, _, k⟩ he hs
    exact k.step he hs
  exact ⟨x, hx, k.retains, dropsSent k.toInv⟩

/-- Pools that hand out new objects up to their limits. -/
def pools : Alloc where
  outBuffer s := if s.obUse.length < maxBuffers then Alloc.unbounded.outBuffer s else none
  buffer := Alloc.unbounded.buffer
  outPacket s := decide (s.recents.length < maxBuffers * 10)
  outBuffer_fresh := by
    intro s p h
    split at h
    · exact Alloc.unbounded.outBuffer_fresh s p h
    · cases h
  buffer_fresh := Alloc.unbounded.buffer_fresh

theorem pools_limited : Limited pools := by
  refine ⟨fun s h => ?_, fun s h => ?_⟩
  · by_contra hlt
    simp [pools, hlt] at h
  · simpa [pools] using h

/-- Twelve packets that are sent, and three more. -/
theorem recents_kept_fifteen :
    let ask : Event := .alloc pools none 14 0x23 0 fun _ => 0
    let es := List.replicate 12 ask ++ [.write] ++ List.replicate 3 ask
    ∃ x : Tx, runs step fresh es = some x ∧ Retains x.wr (handed fresh es) ∧ ∀ e, DropsSent x e := by
  intro ask es
  refine recents_kept (fun _ => default) (fun _ => default) es fun e he => ?_
  simp only [es, List.mem_append, List.mem_replicate, List.mem_singleton] at he
  rcases he with (⟨-, rfl⟩ | rfl) | ⟨-, rfl⟩
  · exact pools_limited
  · trivial
  · exact pools_limited

end Tx

end AmiPiBorg
