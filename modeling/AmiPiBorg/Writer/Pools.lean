import AmiPiBorg.Writer.Effects

/-!
# The writer's objects

`os` are the `OutBuffer`s of the listed packets, one entry a packet. A buffer is `Live` if it is queued or holds a
listed packet. `Pools s os` says that live buffers are in use, each with a `Buffer` of its own, and that their counts
are right. Every operation keeps it (`Pools.new`, `Pools.add`, `Pools.release`, `Pools.pop`, `Pools.congr`).
-/

set_option autoImplicit false

namespace AmiPiBorg.Writer

open ProgLib

/-- The buffer is queued, or a listed packet lies in it. -/
def Live (s : Writer) (os : List ObPtr) (ob : ObPtr) : Prop := ob ∈ s.queue ∨ ob ∈ os

/-- What holds of the buffers of a writer whose listed packets lie in `os`. -/
structure Pools (s : Writer) (os : List ObPtr) : Prop where
  bufCount : s.bufCount = s.queue.length % 65536
  outBuf : s.outBuf = s.queue.getLast?
  nodup : s.queue.Nodup
  obUse : ∀ ob, s.Live os ob → ob ∈ s.obUse
  bufUse : ∀ ob, s.Live os ob → (s.obs ob).buf ∈ s.bufUse
  /-- No two live buffers share a `Buffer`. -/
  inj : ∀ ob ob', s.Live os ob → s.Live os ob' → (s.obs ob).buf = (s.obs ob').buf → ob = ob'
  count : ∀ ob, s.Live os ob → (s.obs ob).packetCount = os.count ob
  /-- Every packet takes its header at least. -/
  room : ∀ ob, s.Live os ob → sizeofPacket * os.count ob ≤ (s.bufs (s.obs ob).buf).offset
  full : ∀ ob, s.Live os ob → (s.bufs (s.obs ob).buf).offset ≤ bufferSize
  /-- Buffers may go once they have left the queue. -/
  held : ∀ ob, s.Live os ob → ((s.obs ob).canRelease = false ↔ ob ∈ s.queue)
  obNodup : s.obUse.Nodup
  bufNodup : s.bufUse.Nodup

variable {s s' : Writer} {os : List ObPtr} {ob : ObPtr} {op : OutPacket}

/-- A buffer that no one refers to is not a live one. -/
theorem Live.ne {c : ObPtr} (hc : s.Live os c) (hob : ob ∉ s.queue ∧ ob ∉ os) : c ≠ ob := by
  rintro rfl
  rcases hc with hc | hc
  · exact hob.1 hc
  · exact hob.2 hc

namespace Pools

theorem start (obs : ObPtr → OutBuffer) (bufs : BufPtr → Buffer) : (createPacketWriter obs bufs).Pools [] := by
  have hl : ∀ ob, ¬(createPacketWriter obs bufs).Live [] ob := by
    rintro ob (h | h)
    · cases h
    · cases h
  constructor
  · rfl
  · rfl
  · exact List.nodup_nil
  · exact fun ob h => absurd h (hl ob)
  · exact fun ob h => absurd h (hl ob)
  · exact fun ob _ h => absurd h (hl ob)
  · exact fun ob h => absurd h (hl ob)
  · exact fun ob h => absurd h (hl ob)
  · exact fun ob h => absurd h (hl ob)
  · exact fun ob h => absurd h (hl ob)
  · exact List.nodup_nil
  · exact List.nodup_nil

/-- Contents and the offsets of what is sent do not matter. -/
theorem congr (k : s.Pools os) (hq : s'.queue = s.queue) (hb : s'.bufCount = s.bufCount) (ho : s'.outBuf = s.outBuf)
    (hu : s'.obUse = s.obUse) (hv : s'.bufUse = s.bufUse)
    (hobs : ∀ ob, (s'.obs ob).buf = (s.obs ob).buf ∧ (s'.obs ob).packetCount = (s.obs ob).packetCount ∧
      (s'.obs ob).canRelease = (s.obs ob).canRelease)
    (hoff : ∀ b, (s'.bufs b).offset = (s.bufs b).offset) : s'.Pools os := by
  have hl : ∀ ob, s'.Live os ob ↔ s.Live os ob := fun ob => by
    unfold Live
    rw [hq]
  constructor
  · rw [hb, hq]
    exact k.bufCount
  · rw [ho, hq]
    exact k.outBuf
  · rw [hq]
    exact k.nodup
  · intro ob h
    rw [hu]
    exact k.obUse ob ((hl ob).1 h)
  · intro ob h
    rw [hv, (hobs ob).1]
    exact k.bufUse ob ((hl ob).1 h)
  · intro ob ob' h h' he
    rw [(hobs ob).1, (hobs ob').1] at he
    exact k.inj ob ob' ((hl ob).1 h) ((hl ob').1 h') he
  · intro ob h
    rw [(hobs ob).2.1]
    exact k.count ob ((hl ob).1 h)
  · intro ob h
    rw [(hobs ob).1, hoff]
    exact k.room ob ((hl ob).1 h)
  · intro ob h
    rw [(hobs ob).1, hoff]
    exact k.full ob ((hl ob).1 h)
  · intro ob h
    rw [(hobs ob).2.2, hq]
    exact k.held ob ((hl ob).1 h)
  · rw [hu]
    exact k.obNodup
  · rw [hv]
    exact k.bufNodup

theorem count_lt (k : s.Pools os) (h : s.Live os ob) : os.count ob < 300 := by
  have h₁ := k.room ob h
  have h₂ := k.full ob h
  simp only [sizeofPacket, bufferSize] at h₁ h₂
  omega

/-- An object that is taken and not used. -/
theorem take (k : s.Pools os) (hob : ob ∉ s.obUse) : ({ s with obUse := ob :: s.obUse } : Writer).Pools os :=
  { bufCount := k.bufCount, outBuf := k.outBuf, nodup := k.nodup
    obUse := fun c h => List.mem_cons_of_mem _ (k.obUse c h)
    bufUse := k.bufUse, inj := k.inj, count := k.count, room := k.room, full := k.full, held := k.held
    obNodup := List.nodup_cons.2 ⟨hob, k.obNodup⟩, bufNodup := k.bufNodup }

section Open

variable {b : BufPtr} (k : s.Pools os) (hob : ob ∉ s.queue ∧ ob ∉ os) (hb : b ∉ s.bufUse)
include k

theorem buf_ne_of_live {c : ObPtr} (hb : b ∉ s.bufUse) (hc : s.Live os c) : (s.obs c).buf ≠ b := by
  rintro rfl
  exact hb (k.bufUse c hc)

include hob hb

/-- Opening a buffer. -/
theorem openBuffer (hu : ob ∈ s.obUse) : (s.openBuffer ob b).Pools os := by
  have hl : ∀ c, (s.openBuffer ob b).Live os c ↔ s.Live os c ∨ c = ob := fun c => by
    unfold Live Writer.openBuffer
    simp only [List.mem_append, List.mem_singleton]
    tauto
  have hobs : ∀ c, s.Live os c → (s.openBuffer ob b).obs c = s.obs c := fun c hc =>
    obs_setOb_of_ne (hc.ne hob)
  have hself : (s.openBuffer ob b).obs ob = ⟨b, 0, 0, false⟩ := obs_setOb_self
  have hbufs : ∀ c, s.Live os c → (s.openBuffer ob b).bufs (s.obs c).buf = s.bufs (s.obs c).buf := fun c hc =>
    bufs_setBuf_of_ne (k.buf_ne_of_live hb hc)
  have hnew : ((s.openBuffer ob b).bufs b).offset = 0 := congrArg Buffer.offset bufs_setBuf_self
  have hzero : os.count ob = 0 := List.count_eq_zero.2 hob.2
  constructor
  · simp only [Writer.openBuffer, List.length_append, List.length_singleton, k.bufCount]
    omega
  · simp only [Writer.openBuffer, List.getLast?_append, List.getLast?_singleton, Option.some_or]
  · apply List.Nodup.append k.nodup (List.nodup_singleton ob)
    simpa using hob.1
  · intro c hc
    rcases (hl c).1 hc with hc | rfl
    · exact k.obUse c hc
    · exact hu
  · intro c hc
    rcases (hl c).1 hc with hc | rfl
    · rw [hobs c hc]
      exact List.mem_cons_of_mem _ (k.bufUse c hc)
    · rw [hself]
      exact List.mem_cons_self
  · intro c c' hc hc' he
    rcases (hl c).1 hc with h | rfl <;> rcases (hl c').1 hc' with h' | rfl
    · rw [hobs c h, hobs c' h'] at he
      exact k.inj c c' h h' he
    · rw [hobs c h, hself] at he
      exact absurd he (k.buf_ne_of_live hb h)
    · rw [hobs c' h', hself] at he
      exact absurd he.symm (k.buf_ne_of_live hb h')
    · rfl
  · intro c hc
    rcases (hl c).1 hc with hc | rfl
    · rw [hobs c hc]
      exact k.count c hc
    · rw [hself, hzero]
  · intro c hc
    rcases (hl c).1 hc with hc | rfl
    · rw [hobs c hc, hbufs c hc]
      exact k.room c hc
    · rw [hzero]
      exact Nat.zero_le _
  · intro c hc
    rcases (hl c).1 hc with hc | rfl
    · rw [hobs c hc, hbufs c hc]
      exact k.full c hc
    · rw [hself, hnew]
      exact Nat.zero_le _
  · intro c hc
    have hq : c ∈ (s.openBuffer ob b).queue ↔ c ∈ s.queue ∨ c = ob := by
      unfold Writer.openBuffer
      simp only [List.mem_append, List.mem_singleton]
    rw [hq]
    rcases (hl c).1 hc with hc | rfl
    · rw [hobs c hc, k.held c hc, or_iff_left (hc.ne hob)]
    · rw [hself]
      exact iff_of_true rfl (.inr rfl)
  · exact k.obNodup
  · exact List.nodup_cons.2 ⟨hb, k.bufNodup⟩

end Open

/-- **A packet more** in a buffer that has room for it. -/
theorem add (k : s.Pools os) (hob : ob ∈ s.queue) {n : Nat} {d : Mem} (hn : sizeofPacket ≤ n)
    (hroom : (s.bufs (s.obs ob).buf).offset + n ≤ bufferSize) :
    ((s.setBuf (s.obs ob).buf ⟨(s.bufs (s.obs ob).buf).offset + n, d⟩).setOb ob
      { s.obs ob with packetCount := ((s.obs ob).packetCount + 1) % 65536 }).Pools (os ++ [ob]) := by
  set t := (s.setBuf (s.obs ob).buf ⟨(s.bufs (s.obs ob).buf).offset + n, d⟩).setOb ob
    { s.obs ob with packetCount := ((s.obs ob).packetCount + 1) % 65536 } with ht
  have hl : ∀ c, t.Live (os ++ [ob]) c → s.Live os c := by
    rintro c (hc | hc)
    · exact .inl hc
    · rcases List.mem_append.1 hc with hc | hc
      · exact .inr hc
      · rw [List.mem_singleton.1 hc]
        exact .inl hob
  have hbuf : ∀ c, (t.obs c).buf = (s.obs c).buf := fun c => by
    rw [ht, obs_setOb]
    split
    · subst c
      rfl
    · rfl
  have hoff : ∀ c, s.Live os c → (t.bufs (s.obs c).buf).offset =
      (s.bufs (s.obs c).buf).offset + if c = ob then n else 0 := fun c hc => by
    rw [ht, bufs_setOb, bufs_setBuf]
    by_cases h : c = ob
    · subst c
      rw [if_pos rfl, if_pos rfl]
    · rw [if_neg h, if_neg fun he => h (k.inj c ob hc (.inl hob) he), Nat.add_zero]
  have hcount : ∀ c, (os ++ [ob]).count c = os.count c + if c = ob then 1 else 0 := fun c => by
    rw [List.count_append, List.count_singleton]
    simp only [beq_iff_eq, eq_comm (a := ob)]
  constructor
  · exact k.bufCount
  · exact k.outBuf
  · exact k.nodup
  · exact fun c hc => k.obUse c (hl c hc)
  · intro c hc
    rw [hbuf]
    exact k.bufUse c (hl c hc)
  · intro c c' hc hc' he
    rw [hbuf, hbuf] at he
    exact k.inj c c' (hl c hc) (hl c' hc') he
  · intro c hc
    have hc' := k.count c (hl c hc)
    have hlt := k.count_lt (hl c hc)
    rw [hcount, ht, obs_setOb]
    by_cases h : c = ob
    · subst c
      rw [if_pos rfl, if_pos rfl]
      show ((s.obs ob).packetCount + 1) % 65536 = _
      omega
    · rw [if_neg h, if_neg h]
      exact hc'
  · intro c hc
    have hr := k.room c (hl c hc)
    rw [hcount, hbuf, hoff c (hl c hc)]
    split
    · rw [Nat.mul_add]
      omega
    · exact hr
  · intro c hc
    have hf := k.full c (hl c hc)
    rw [hbuf, hoff c (hl c hc)]
    split
    · subst c
      exact hroom
    · exact hf
  · intro c hc
    rw [ht, obs_setOb]
    split
    · subst c
      exact k.held ob (.inl hob)
    · exact k.held c (hl c hc)
  · exact k.obNodup
  · exact k.bufNodup

/-- The head buffer leaves the queue. -/
theorem pop (k : s.Pools os) (hq : ∃ q, s.queue = ob :: q ∧ q ≠ []) :
    ({ s.setOb ob { s.obs ob with canRelease := true } with
      queue := s.queue.tail, bufCount := (s.bufCount + 65535) % 65536 } : Writer).Pools os := by
  obtain ⟨q, hq, hne⟩ := hq
  set t : Writer := { s.setOb ob { s.obs ob with canRelease := true } with
    queue := s.queue.tail, bufCount := (s.bufCount + 65535) % 65536 } with ht
  have hl : ∀ c, t.Live os c → s.Live os c := by
    rintro c (hc | hc)
    · exact .inl (List.mem_of_mem_tail hc)
    · exact .inr hc
  have hobs : ∀ c, (t.obs c).buf = (s.obs c).buf ∧ (t.obs c).packetCount = (s.obs c).packetCount := fun c => by
    rw [ht]
    dsimp only
    rw [obs_setOb]
    split
    · subst c
      exact ⟨rfl, rfl⟩
    · exact ⟨rfl, rfl⟩
  have hnd := k.nodup
  rw [hq] at hnd
  constructor
  · have hlen : 0 < q.length := List.length_pos_iff.2 hne
    simp only [ht, k.bufCount, hq, List.tail_cons, List.length_cons]
    omega
  · simp only [ht, hq, List.tail_cons]
    show s.outBuf = _
    rw [k.outBuf, hq, List.getLast?_cons_of_ne_nil hne]
  · simp only [ht, hq, List.tail_cons]
    exact (List.nodup_cons.1 hnd).2
  · exact fun c hc => k.obUse c (hl c hc)
  · intro c hc
    rw [(hobs c).1]
    exact k.bufUse c (hl c hc)
  · intro c c' hc hc' he
    rw [(hobs c).1, (hobs c').1] at he
    exact k.inj c c' (hl c hc) (hl c' hc') he
  · intro c hc
    rw [(hobs c).2]
    exact k.count c (hl c hc)
  · intro c hc
    rw [(hobs c).1]
    exact k.room c (hl c hc)
  · intro c hc
    rw [(hobs c).1]
    exact k.full c (hl c hc)
  · intro c hc
    have htq : c ∈ t.queue ↔ c ∈ q := by simp only [ht, hq, List.tail_cons]
    have hcan : (t.obs c).canRelease = if c = ob then true else (s.obs c).canRelease := by
      show ((s.setOb ob _).obs c).canRelease = _
      rw [obs_setOb]
      split <;> rfl
    rw [htq, hcan]
    by_cases h : c = ob
    · subst c
      rw [if_pos rfl]
      exact iff_of_false (by decide) (List.nodup_cons.1 hnd).1
    · rw [if_neg h, k.held c (hl c hc), hq, List.mem_cons, or_iff_right h]
  · exact k.obNodup
  · exact k.bufNodup

/-- An `OutBuffer` that is not live can go, with its `Buffer`. -/
theorem free (k : s.Pools os) (hob : ob ∉ s.queue ∧ ob ∉ os)
    (hb : ∀ c, s.Live os c → (s.obs c).buf ≠ (s.obs ob).buf) : (s.releaseOutBuffer ob).Pools os :=
  { bufCount := k.bufCount, outBuf := k.outBuf, nodup := k.nodup
    obUse := fun c hc => (List.mem_erase_of_ne (hc.ne hob)).2 (k.obUse c hc)
    bufUse := fun c hc => (List.mem_erase_of_ne (hb c hc)).2 (k.bufUse c hc)
    inj := k.inj, count := k.count, room := k.room, full := k.full, held := k.held
    obNodup := k.obNodup.erase ob, bufNodup := k.bufNodup.erase _ }

/-- One packet less, before its buffer is looked at. -/
theorem countOut (k : s.Pools (ob :: os)) :
    (s.setOb ob { s.obs ob with packetCount := ((s.obs ob).packetCount + 65535) % 65536 }).Pools os := by
  set t := s.setOb ob { s.obs ob with packetCount := ((s.obs ob).packetCount + 65535) % 65536 } with ht
  have hl : ∀ c, t.Live os c → s.Live (ob :: os) c := by
    rintro c (hc | hc)
    · exact .inl hc
    · exact .inr (List.mem_cons_of_mem _ hc)
  have hbuf : ∀ c, (t.obs c).buf = (s.obs c).buf := fun c => by
    rw [ht, obs_setOb]
    split
    · subst c
      rfl
    · rfl
  have hle : ∀ c, os.count c ≤ (ob :: os).count c := fun c => List.count_le_count_cons
  constructor
  · exact k.bufCount
  · exact k.outBuf
  · exact k.nodup
  · exact fun c hc => k.obUse c (hl c hc)
  · intro c hc
    rw [hbuf]
    exact k.bufUse c (hl c hc)
  · intro c c' hc hc' he
    rw [hbuf, hbuf] at he
    exact k.inj c c' (hl c hc) (hl c' hc') he
  · intro c hc
    have hc' := k.count c (hl c hc)
    have hlt := k.count_lt (hl c hc)
    rw [ht, obs_setOb]
    by_cases h : c = ob
    · subst c
      rw [List.count_cons_self] at hc' hlt
      rw [if_pos rfl]
      show ((s.obs ob).packetCount + 65535) % 65536 = _
      omega
    · rw [List.count_cons_of_ne (Ne.symm h)] at hc'
      rw [if_neg h]
      exact hc'
  · intro c hc
    have hr := k.room c (hl c hc)
    have := Nat.mul_le_mul_left sizeofPacket (hle c)
    rw [hbuf]
    exact Nat.le_trans this hr
  · intro c hc
    rw [hbuf]
    exact k.full c (hl c hc)
  · intro c hc
    rw [ht, obs_setOb]
    split
    · subst c
      exact k.held ob (hl ob hc)
    · exact k.held c (hl c hc)
  · exact k.obNodup
  · exact k.bufNodup

/-- **The oldest listed packet is dropped**, and its buffer goes if that was its last packet and may go. -/
theorem release (k : s.Pools (op.outBuf :: os)) : (s.releaseOutPacket op).Pools os := by
  have k' := k.countOut
  unfold releaseOutPacket
  set t := s.setOb op.outBuf
    { s.obs op.outBuf with packetCount := ((s.obs op.outBuf).packetCount + 65535) % 65536 } with ht
  by_cases h : (t.obs op.outBuf).packetCount = 0 ∧ (t.obs op.outBuf).canRelease = true
  · simp only [h, and_self, if_true]
    have hq : op.outBuf ∉ s.queue := fun hq => by
      have := (k'.held _ (.inl hq)).2 hq
      rw [h.2] at this
      cases this
    have hos : op.outBuf ∉ os := fun hos => by
      have hc := k'.count _ (.inr hos)
      rw [h.1] at hc
      have := List.count_pos_iff.2 hos
      omega
    have hbuf : ∀ c, (t.obs c).buf = (s.obs c).buf := fun c => by
      rw [ht, obs_setOb]
      split
      · subst c
        rfl
      · rfl
    apply k'.free ⟨hq, hos⟩
    intro c hc he
    rw [hbuf, hbuf] at he
    have hc' : s.Live (op.outBuf :: os) c := hc.imp_right (List.mem_cons_of_mem _)
    have := k.inj c op.outBuf hc' (.inr List.mem_cons_self) he
    exact hc.ne ⟨hq, hos⟩ this
  · simp only [h, if_false]
    exact k'

end Pools

/-! ## Nothing lost -/

/-- The pools have handed out only what is live. -/
structure Tight (s : Writer) (os : List ObPtr) : Prop where
  live : ∀ ob ∈ s.obUse, s.Live os ob
  paired : ∀ b ∈ s.bufUse, ∃ ob ∈ s.obUse, (s.obs ob).buf = b

/-- The pools always have what is asked for. -/
def Alloc.Succeeds (al : Alloc) : Prop :=
  ∀ s, (al.outBuffer s).isSome = true ∧ (al.buffer s).isSome = true ∧ al.outPacket s = true

/-- Pools that hand out ever new objects. -/
def Alloc.unbounded : Alloc where
  outBuffer s := some (s.obUse.foldr max 0 + 1)
  buffer s := some (s.bufUse.foldr max 0 + 1)
  outPacket _ := true
  outBuffer_fresh := by
    rintro s p ⟨⟩ hp
    exact absurd (le_foldr_max hp) (by omega)
  buffer_fresh := by
    rintro s p ⟨⟩ hp
    exact absurd (le_foldr_max hp) (by omega)

theorem Alloc.unbounded_succeeds : Alloc.unbounded.Succeeds := fun _ => ⟨rfl, rfl, rfl⟩

namespace Tight

theorem start (obs : ObPtr → OutBuffer) (bufs : BufPtr → Buffer) : (createPacketWriter obs bufs).Tight [] :=
  ⟨fun _ h => (by cases h), fun _ h => (by cases h)⟩

theorem congr {os' : List ObPtr} (h : s.Tight os) (hu : s'.obUse = s.obUse) (hv : s'.bufUse = s.bufUse)
    (hb : ∀ c, (s'.obs c).buf = (s.obs c).buf) (hl : ∀ c, s.Live os c → s'.Live os' c) : s'.Tight os' := by
  constructor
  · intro c hc
    rw [hu] at hc
    exact hl c (h.live c hc)
  · intro b hb'
    rw [hv] at hb'
    obtain ⟨c, hc, rfl⟩ := h.paired b hb'
    exact ⟨c, by rwa [hu], hb c⟩

theorem openBuffer {b : BufPtr} (h : s.Tight os) (hob : ob ∉ s.obUse) :
    (({ s with obUse := ob :: s.obUse } : Writer).openBuffer ob b).Tight os := by
  set t := ({ s with obUse := ob :: s.obUse } : Writer).openBuffer ob b with ht
  have hobs : ∀ c ∈ s.obUse, t.obs c = s.obs c := fun c hc => by
    apply obs_setOb_of_ne
    rintro rfl
    exact hob hc
  have hself : t.obs ob = ⟨b, 0, 0, false⟩ := obs_setOb_self
  constructor
  · intro c hc
    rcases List.mem_cons.1 hc with rfl | hc
    · exact .inl (List.mem_append_right _ (List.mem_singleton_self _))
    · exact (h.live c hc).imp_left (List.mem_append_left _)
  · intro b' hb'
    rcases List.mem_cons.1 hb' with rfl | hb'
    · exact ⟨ob, List.mem_cons_self, congrArg OutBuffer.buf hself⟩
    · obtain ⟨c, hc, rfl⟩ := h.paired b' hb'
      exact ⟨c, List.mem_cons_of_mem _ hc, congrArg OutBuffer.buf (hobs c hc)⟩

/-- **A buffer goes with its last packet**, once it has left the queue. -/
theorem release (h : s.Tight (op.outBuf :: os)) (k : s.Pools (op.outBuf :: os)) : (s.releaseOutPacket op).Tight os := by
  set t := s.setOb op.outBuf
    { s.obs op.outBuf with packetCount := ((s.obs op.outBuf).packetCount + 65535) % 65536 } with ht
  have hbuf : ∀ c, (t.obs c).buf = (s.obs c).buf := fun c => by
    rw [ht, obs_setOb]
    split
    · subst c
      rfl
    · rfl
  have hlive : s.Live (op.outBuf :: os) op.outBuf := .inr List.mem_cons_self
  have hself : t.obs op.outBuf = { s.obs op.outBuf with packetCount := os.count op.outBuf } := by
    have hc := k.count _ hlive
    have hlt := k.count_lt hlive
    rw [List.count_cons_self] at hc hlt
    have hn : (os.count op.outBuf + 1 + 65535) % 65536 = os.count op.outBuf := by omega
    rw [ht, obs_setOb_self, hc, hn]
  have hmem : ∀ c, c ≠ op.outBuf → s.Live (op.outBuf :: os) c → s.Live os c := fun c hc hl =>
    hl.imp_right fun hm => (List.mem_cons.1 hm).resolve_left hc
  have hrel : s.releaseOutPacket op =
      if (t.obs op.outBuf).packetCount = 0 ∧ (t.obs op.outBuf).canRelease = true then t.releaseOutBuffer op.outBuf
      else t := rfl
  rw [hrel]
  by_cases hgo : (t.obs op.outBuf).packetCount = 0 ∧ (t.obs op.outBuf).canRelease = true
  · rw [if_pos hgo]
    constructor
    · intro c hc
      obtain ⟨hne, hc⟩ := (List.Nodup.mem_erase_iff k.obNodup).1 hc
      exact hmem c hne (h.live c hc)
    · intro b hb
      obtain ⟨hne, hb⟩ := (List.Nodup.mem_erase_iff k.bufNodup).1 hb
      obtain ⟨c, hc, rfl⟩ := h.paired b hb
      have hco : c ≠ op.outBuf := by
        rintro rfl
        exact hne (hbuf _).symm
      exact ⟨c, (List.mem_erase_of_ne hco).2 hc, hbuf c⟩
  · rw [if_neg hgo]
    refine h.congr (show t.obUse = s.obUse from rfl) rfl hbuf fun c hc => ?_
    by_cases hco : c = op.outBuf
    · subst c
      rw [hself] at hgo
      by_cases h0 : os.count op.outBuf = 0
      · -- its last packet is gone, so it is still queued
        have hcan : (s.obs op.outBuf).canRelease = false := by
          simpa only [h0, true_and, Bool.not_eq_true] using hgo
        exact .inl ((k.held _ hlive).1 hcan)
      · exact .inr (List.count_pos_iff.1 (Nat.pos_of_ne_zero h0))
    · exact hmem c hco hc

end Tight

end AmiPiBorg.Writer
