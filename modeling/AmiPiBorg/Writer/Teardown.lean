import AmiPiBorg.Writer.Transmit

/-!
# The end of a writer

`APB_DestroyPacketWriter` releases the buffers of the queue, and then the listed packets, the last of which releases its
buffer if that has left the queue. A packet whose buffer is still queued comes too late: its buffer has been released
when the packet counts itself out of it. This is so in every writer whose last packet is listed, and otherwise everything
that is queued or holds a listed packet is given back, each object once (`destroy_exact`).
-/

set_option autoImplicit false

namespace AmiPiBorg.Writer

open ProgLib

/-- The first loop of `APB_DestroyPacketWriter`. What is released must be in use. -/
def destroyQueue : List ObPtr → Writer → Option Writer
  | [], s => some { s with queue := [] }
  | ob :: obs, s =>
    if ob ∈ s.obUse ∧ (s.obs ob).buf ∈ s.bufUse then destroyQueue obs (s.releaseOutBuffer ob) else none

/-- The second loop. The buffer of a packet must not have been released. -/
def destroyPackets : List OutPacket → Writer → Option Writer
  | [], s => some { s with recents := [] }
  | op :: ops, s => if op.outBuf ∈ s.obUse then destroyPackets ops (s.releaseOutPacket op) else none

/-- `APB_DestroyPacketWriter`. -/
def destroyPacketWriter (s : Writer) : Option Writer := (destroyQueue s.queue s).bind (destroyPackets s.recents)

variable {s s' : Writer} {os : List ObPtr} {ob : ObPtr} {b : BufPtr} {op : OutPacket} {ops : List OutPacket}
  {obs : List ObPtr}

/-! ## The queue -/

/-- What the first loop releases, if it releases nothing twice. -/
theorem destroyQueue_some (hn : obs.Nodup) (hu : ∀ ob ∈ obs, ob ∈ s.obUse ∧ (s.obs ob).buf ∈ s.bufUse)
    (hb : (obs.map fun ob => (s.obs ob).buf).Nodup) : destroyQueue obs s = some
      { s with queue := [], obUse := s.obUse.diff obs, bufUse := s.bufUse.diff (obs.map fun ob => (s.obs ob).buf) } := by
  induction obs generalizing s with
  | nil => rfl
  | cons ob obs ih =>
    rw [List.nodup_cons] at hn
    rw [List.map_cons, List.nodup_cons] at hb
    rw [List.forall_mem_cons] at hu
    have hrest : ∀ c ∈ obs, c ∈ s.obUse.erase ob ∧ (s.obs c).buf ∈ s.bufUse.erase (s.obs ob).buf := by
      intro c hc
      obtain ⟨hc₁, hc₂⟩ := hu.2 c hc
      constructor
      · refine (List.mem_erase_of_ne fun he => hn.1 ?_).2 hc₁
        rw [← he]
        exact hc
      · refine (List.mem_erase_of_ne fun he => hb.1 ?_).2 hc₂
        rw [← he]
        exact List.mem_map_of_mem (f := fun ob => (s.obs ob).buf) hc
    have h := ih (s := s.releaseOutBuffer ob) hn.2 hrest hb.2
    rw [destroyQueue, if_pos hu.1, h]
    simp only [releaseOutBuffer, List.diff_cons, List.map_cons]

/-- The buffers of the queue are released. -/
theorem Pools.destroyQueue (k : s.Pools os) : Writer.destroyQueue s.queue s = some
    { s with queue := [], obUse := s.obUse.diff s.queue,
             bufUse := s.bufUse.diff (s.queue.map fun ob => (s.obs ob).buf) } := by
  refine destroyQueue_some k.nodup (fun ob hob => ⟨k.obUse ob (.inl hob), k.bufUse ob (.inl hob)⟩) ?_
  exact k.nodup.map_on fun c hc d hd he => k.inj c d (.inl hc) (.inl hd) he

/-! ## The packets -/

/-- What holds while packets in `os` are released: their buffers are in use, have left the queue, and are counted. -/
structure Ending (s : Writer) (os : List ObPtr) : Prop where
  obUse : ∀ ob ∈ os, ob ∈ s.obUse
  bufUse : ∀ ob ∈ os, (s.obs ob).buf ∈ s.bufUse
  inj : ∀ ob ∈ os, ∀ ob' ∈ os, (s.obs ob).buf = (s.obs ob').buf → ob = ob'
  count : ∀ ob ∈ os, (s.obs ob).packetCount = os.count ob ∧ os.count ob < 65536
  canRelease : ∀ ob ∈ os, (s.obs ob).canRelease = true
  obNodup : s.obUse.Nodup
  bufNodup : s.bufUse.Nodup

/-- What one packet less does. Its buffer goes if that was the last packet in it. -/
theorem Ending.release (h : s.Ending (op.outBuf :: os)) : (s.releaseOutPacket op).Ending os ∧
    (∀ c, ((s.releaseOutPacket op).obs c).buf = (s.obs c).buf) ∧
    (s.releaseOutPacket op).obUse = (if op.outBuf ∈ os then s.obUse else s.obUse.erase op.outBuf) ∧
    (s.releaseOutPacket op).bufUse = (if op.outBuf ∈ os then s.bufUse else s.bufUse.erase (s.obs op.outBuf).buf) := by
  obtain ⟨hcount, hlt⟩ := h.count op.outBuf List.mem_cons_self
  have hcan := h.canRelease op.outBuf List.mem_cons_self
  rw [List.count_cons_self] at hcount hlt
  -- the count is that of the packets that are left
  have hleft : ((s.obs op.outBuf).packetCount + 65535) % 65536 = os.count op.outBuf := by omega
  have hobs : ∀ c, (s.releaseOutPacket op).obs c = if c = op.outBuf then
      { s.obs op.outBuf with packetCount := os.count op.outBuf } else s.obs c := by
    intro c
    rw [← obs_setOb, ← hleft]
    unfold releaseOutPacket
    dsimp only
    split <;> rfl
  have huse : (s.releaseOutPacket op).obUse = (if op.outBuf ∈ os then s.obUse else s.obUse.erase op.outBuf) ∧
      (s.releaseOutPacket op).bufUse =
        (if op.outBuf ∈ os then s.bufUse else s.bufUse.erase (s.obs op.outBuf).buf) := by
    unfold releaseOutPacket
    dsimp only
    rw [obs_setOb, if_pos rfl, hleft]
    by_cases hm : op.outBuf ∈ os
    · have hc : os.count op.outBuf ≠ 0 := fun hc => List.count_eq_zero.1 hc hm
      simp [hm, hc, setOb]
    · simp [hm, hcan, setOb, releaseOutBuffer, List.count_eq_zero.2 hm]
  have hbuf : ∀ c, ((s.releaseOutPacket op).obs c).buf = (s.obs c).buf := fun c => by
    rw [hobs]
    split
    · subst c
      rfl
    · rfl
  refine ⟨?_, hbuf, huse⟩
  have hmem : ∀ {c}, c ∈ os → c ∈ op.outBuf :: os := List.mem_cons_of_mem _
  constructor
  · intro c hc
    rw [huse.1]
    split
    · exact h.obUse c (hmem hc)
    · next hn =>
      refine (List.mem_erase_of_ne fun he => hn ?_).2 (h.obUse c (hmem hc))
      rw [← he]
      exact hc
  · intro c hc
    rw [huse.2, hbuf]
    split
    · exact h.bufUse c (hmem hc)
    · next hn =>
      refine (List.mem_erase_of_ne fun he => hn ?_).2 (h.bufUse c (hmem hc))
      rw [← h.inj c (hmem hc) _ List.mem_cons_self he]
      exact hc
  · intro c hc d hd he
    rw [hbuf, hbuf] at he
    exact h.inj c (hmem hc) d (hmem hd) he
  · intro c hc
    obtain ⟨hc₁, hc₂⟩ := h.count c (hmem hc)
    rw [hobs]
    by_cases he : c = op.outBuf
    · subst c
      rw [if_pos rfl]
      exact ⟨rfl, by omega⟩
    · rw [List.count_cons_of_ne (Ne.symm he)] at hc₁ hc₂
      rw [if_neg he]
      exact ⟨hc₁, hc₂⟩
  · intro c hc
    rw [hobs]
    split
    · exact hcan
    · exact h.canRelease c (hmem hc)
  · rw [huse.1]
    split
    · exact h.obNodup
    · exact h.obNodup.erase _
  · rw [huse.2]
    split
    · exact h.bufNodup
    · exact h.bufNodup.erase _

/-- **The second loop** releases the buffers of the packets, each with its last packet. -/
theorem destroyPackets_some (h : s.Ending (ops.map OutPacket.outBuf)) : ∃ s', destroyPackets ops s = some s' ∧
    (∀ ob, ob ∈ s'.obUse ↔ ob ∈ s.obUse ∧ ∀ op ∈ ops, op.outBuf ≠ ob) ∧
    ∀ b, b ∈ s'.bufUse ↔ b ∈ s.bufUse ∧ ∀ op ∈ ops, (s.obs op.outBuf).buf ≠ b := by
  induction ops generalizing s with
  | nil => exact ⟨_, rfl, by simp, by simp⟩
  | cons op ops ih =>
    obtain ⟨hend, hbuf, huse, hbuse⟩ := h.release
    obtain ⟨s', hs, hob, hb⟩ := ih hend
    refine ⟨s', by rw [destroyPackets, if_pos (h.obUse _ List.mem_cons_self), hs], fun c => ?_, fun c => ?_⟩
    · rw [hob, huse, List.forall_mem_cons]
      split
      · next hm =>
        obtain ⟨o, ho, heq⟩ := List.mem_map.1 hm
        exact ⟨fun hc => ⟨hc.1, heq ▸ hc.2 o ho, hc.2⟩, fun hc => ⟨hc.1, hc.2.2⟩⟩
      · rw [h.obNodup.mem_erase_iff, and_assoc, and_left_comm, ne_comm]
    · rw [hb, hbuse, List.forall_mem_cons]
      simp only [hbuf]
      split
      · next hm =>
        obtain ⟨o, ho, heq⟩ := List.mem_map.1 hm
        exact ⟨fun hc => ⟨hc.1, heq ▸ hc.2 o ho, hc.2⟩, fun hc => ⟨hc.1, hc.2.2⟩⟩
      · rw [h.bufNodup.mem_erase_iff, and_assoc, and_left_comm, ne_comm]

/-- A loop that comes to its end has found every buffer in use. -/
theorem mem_of_destroyPackets (h : destroyPackets ops s = some s') : ∀ op ∈ ops, op.outBuf ∈ s.obUse := by
  induction ops generalizing s with
  | nil => exact fun op hop => absurd hop List.not_mem_nil
  | cons op ops ih =>
    rw [destroyPackets] at h
    split at h
    · next hu =>
      refine List.forall_mem_cons.2 ⟨hu, fun o ho => ?_⟩
      have hm := ih h o ho
      unfold releaseOutPacket at hm
      dsimp only at hm
      split at hm
      · exact List.mem_of_mem_erase hm
      · exact hm
    · cases h

/-! ## Destroying a writer -/

/-- **Destroying a writer** touches a buffer that it has released if and only if a listed packet lies in a queued buffer.
Otherwise it gives back, each once, the buffers that are queued or hold a listed packet, and no others. -/
theorem destroy_exact (obs : ObPtr → OutBuffer) (bufs : BufPtr → Buffer) (es : List Tx.Event) :
    ∃ x : Tx, runs Tx.step (Tx.start obs bufs) es = some x ∧
      (x.wr.destroyPacketWriter = none ↔ ∃ op ∈ x.wr.recents, op.outBuf ∈ x.wr.queue) ∧
      ∀ s', x.wr.destroyPacketWriter = some s' →
        (∀ ob, ob ∈ s'.obUse ↔ ob ∈ x.wr.obUse ∧ ob ∉ x.wr.queue ∧ ∀ op ∈ x.wr.recents, op.outBuf ≠ ob) ∧
        ∀ b, b ∈ s'.bufUse ↔ b ∈ x.wr.bufUse ∧ (∀ ob ∈ x.wr.queue, (x.wr.obs ob).buf ≠ b) ∧
          ∀ op ∈ x.wr.recents, (x.wr.obs op.outBuf).buf ≠ b := by
  obtain ⟨x, hx, S, U, v⟩ := Tx.reached_inv obs bufs es
  have k := v.pools
  have hops : x.wr.recents.map OutPacket.outBuf = owners (S ++ U) := by
    rw [v.recents, owners, List.map_map]
    rfl
  have hqn : (x.wr.queue.map fun ob => (x.wr.obs ob).buf).Nodup :=
    k.nodup.map_on fun c hc d hd he => k.inj c d (.inl hc) (.inl hd) he
  have hob : ∀ op ∈ x.wr.recents, op.outBuf ∈ owners (S ++ U) := fun op hop => hops ▸ List.mem_map_of_mem hop
  have hdiff : ∀ c, c ∈ x.wr.obUse.diff x.wr.queue ↔ c ∈ x.wr.obUse ∧ c ∉ x.wr.queue := fun c =>
    k.obNodup.mem_sdiff_iff
  refine ⟨x, hx, ?_⟩
  unfold destroyPacketWriter
  rw [k.destroyQueue, Option.bind_some]
  by_cases hlate : ∃ op ∈ x.wr.recents, op.outBuf ∈ x.wr.queue
  · -- its buffer is gone when the packet comes
    obtain ⟨op, hop, hq⟩ := hlate
    cases hd : destroyPackets x.wr.recents _ with
    | none => exact ⟨iff_of_true rfl ⟨op, hop, hq⟩, fun t ht => absurd ht.symm (Option.some_ne_none t)⟩
    | some s' => exact absurd hq ((hdiff _).1 (mem_of_destroyPackets hd op hop)).2
  · have hout : ∀ c ∈ owners (S ++ U), c ∉ x.wr.queue := by
      intro c hc hq
      rw [← hops] at hc
      obtain ⟨op, hop, rfl⟩ := List.mem_map.1 hc
      exact hlate ⟨op, hop, hq⟩
    have hbdiff : ∀ b, b ∈ x.wr.bufUse.diff (x.wr.queue.map fun ob => (x.wr.obs ob).buf) ↔
        b ∈ x.wr.bufUse ∧ ∀ ob ∈ x.wr.queue, (x.wr.obs ob).buf ≠ b := fun b => by
      rw [k.bufNodup.mem_sdiff_iff]
      simp
    have hend : Ending { x.wr with
        queue := [], obUse := x.wr.obUse.diff x.wr.queue,
        bufUse := x.wr.bufUse.diff (x.wr.queue.map fun ob => (x.wr.obs ob).buf) } (x.wr.recents.map OutPacket.outBuf) := by
      rw [hops]
      constructor
      · exact fun c hc => (hdiff c).2 ⟨k.obUse c (.inr hc), hout c hc⟩
      · refine fun c hc => (hbdiff _).2 ⟨k.bufUse c (.inr hc), fun d hd he => hout c hc ?_⟩
        rw [← k.inj d c (.inl hd) (.inr hc) he]
        exact hd
      · exact fun c hc d hd he => k.inj c d (.inr hc) (.inr hd) he
      · exact fun c hc => ⟨k.count c (.inr hc), Nat.lt_trans (k.count_lt (.inr hc)) (by decide)⟩
      · intro c hc
        have := k.held c (.inr hc)
        simpa [hout c hc] using this
      · exact k.obNodup.sublist (List.diff_sublist _ _)
      · exact k.bufNodup.sublist (List.diff_sublist _ _)
    obtain ⟨s', hs, hobs, hbufs⟩ := destroyPackets_some hend
    rw [hs]
    refine ⟨iff_of_false (Option.some_ne_none s') hlate, fun t ht => ?_⟩
    cases ht
    refine ⟨fun c => ?_, fun b => ?_⟩
    · rw [hobs, hdiff, and_assoc]
    · rw [hbufs, hbdiff, and_assoc]

/-- The writer of a server that has sent anything ends so. -/
example : (runs Tx.step Tx.fresh [Tx.ask 14, .write, .complete]).map
    (fun x => x.wr.destroyPacketWriter.isNone) = some true := by decide +kernel

end AmiPiBorg.Writer
