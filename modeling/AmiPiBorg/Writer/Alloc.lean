import AmiPiBorg.Writer.Invariant

/-!
# Allocating a packet

`currentBuffer_good`, `add_good` and `trim_good` are the three parts of `APB_AllocPacketWithId`. None of them touches
what was sent. Dropping old packets commutes with stores into buffers (`trim_setBuf`), so a new packet can be looked at
after its caller has filled it in (`alloc_valid`).
-/

set_option autoImplicit false

namespace AmiPiBorg.Writer

open ProgLib

/-- The invariant, with the list of recent packets. -/
structure Valid (s : Writer) (S U : List Listed) : Prop extends s.Good S U where
  recents : s.recents = (S ++ U).map Prod.fst
  recentCount : s.recentCount = (S ++ U).length % 65536

/-- The pools have what a packet of this length needs. -/
def Allocates (al : Alloc) (s : Writer) (length : Nat) : Prop :=
  sizeofPacket ≤ length ∧ length ≤ bufferSize ∧ (s.currentBuffer al length).2.isSome = true ∧
    al.outPacket (s.currentBuffer al length).1 = true

variable {s s' t : Writer} {al : Alloc} {os : List ObPtr} {ob : ObPtr} {a : Incoming} {x : Listed} {op : OutPacket}
  {S U : List Listed} {q : List ObPtr} {length : Nat}

theorem mem_owners_append_left (hx : x ∈ S) : x.1.outBuf ∈ owners (S ++ U) := mem_owners (List.mem_append_left U hx)

/-- The invariant after an operation that leaves the sent packets alone. -/
theorem Good.of_keeps {S' U' : List Listed} (g : s.Good S U) (hk : Keeps s s' (owners (S ++ U))) (hS : ∀ x ∈ S', x ∈ S)
    (hp : s'.Pools (owners (S' ++ U'))) (hpend : s'.Pending s'.queue U') : s'.Good S' U' :=
  ⟨hp, fun x hx => (g.sent x (hS x hx)).keeps hk (mem_owners_append_left (hS x hx)), hpend⟩

/-! ## The buffer -/

theorem keeps_openBuffer {b : BufPtr} (k : s.Pools os) (hob : ob ∉ s.queue ∧ ob ∉ os) (hb : b ∉ s.bufUse) :
    Keeps s (s.openBuffer ob b) os := by
  have hobs : ∀ c, s.Live os c → (s.openBuffer ob b).obs c = s.obs c := fun c hc => obs_setOb_of_ne (hc.ne hob)
  constructor
  · intro c hc
    rw [hobs c hc]
  · intro c hc i _
    have : (s.openBuffer ob b).bufs (s.obs c).buf = s.bufs (s.obs c).buf :=
      bufs_setBuf_of_ne (k.buf_ne_of_live hb hc)
    rw [this]
  · intro c hc
    rw [hobs c hc]
  · intro c hc hq
    rcases List.mem_append.1 hq with hq | hq
    · exact hq
    · exact absurd (List.mem_singleton.1 hq) (hc.ne hob)

theorem openBuffer_good {b : BufPtr} (g : s.Good S U) (hob : ob ∉ s.queue ∧ ob ∉ owners (S ++ U)) (hb : b ∉ s.bufUse)
    (hu : ob ∈ s.obUse) : (s.openBuffer ob b).Good S U := by
  apply g.of_keeps (keeps_openBuffer g.pools hob hb) (fun _ hx => hx) (g.pools.openBuffer hob hb hu)
  have hobs : ∀ c, s.Live (owners (S ++ U)) c → (s.openBuffer ob b).obs c = s.obs c := fun c hc =>
    obs_setOb_of_ne (hc.ne hob)
  have hp : (s.openBuffer ob b).Pending s.queue U := by
    apply g.pending.frame
    · intro c hc
      rw [hobs c (.inl hc)]
      exact ⟨rfl, rfl⟩
    · exact fun c hc => bufs_setBuf_of_ne (g.pools.buf_ne_of_live hb (.inl hc))
  apply hp.snoc_nil
  have hself : (s.openBuffer ob b).obs ob = ⟨b, 0, 0, false⟩ := obs_setOb_self
  have hnew : ((s.openBuffer ob b).bufs b).offset = 0 := congrArg Buffer.offset bufs_setBuf_self
  rw [hself]
  exact hnew.symm

/-- What `newOutBuffer` does. -/
theorem newOutBuffer_cases (al : Alloc) (s : Writer) :
    s.newOutBuffer al = (s, none) ∨ ∃ ob, ob ∉ s.obUse ∧
      (s.newOutBuffer al = ({ s with obUse := ob :: s.obUse }, none) ∧ ¬al.Succeeds ∨ ∃ b, b ∉ s.bufUse ∧
        s.newOutBuffer al = (({ s with obUse := ob :: s.obUse } : Writer).openBuffer ob b, some ob)) := by
  unfold newOutBuffer
  cases hob : al.outBuffer s with
  | none => exact .inl rfl
  | some ob =>
    refine .inr ⟨ob, al.outBuffer_fresh s ob hob, ?_⟩
    dsimp only
    cases hb : al.buffer { s with obUse := ob :: s.obUse } with
    | none =>
      refine .inl ⟨rfl, fun h => ?_⟩
      have := (h { s with obUse := ob :: s.obUse }).2.1
      rw [hb] at this
      cases this
    | some b => exact .inr ⟨b, al.buffer_fresh { s with obUse := ob :: s.obUse } b hb, rfl⟩

/-- A search for a buffer leaves the list of packets alone and takes nothing off the queue. -/
structure SameList (s s' : Writer) : Prop where
  recents : s'.recents = s.recents
  recentCount : s'.recentCount = s.recentCount
  queue : ∀ ob ∈ s.queue, ob ∈ s'.queue

theorem newOutBuffer_good (al : Alloc) (g : s.Good S U) (hle : length ≤ bufferSize) :
    (s.newOutBuffer al).1.Good S U ∧ Keeps s (s.newOutBuffer al).1 (owners (S ++ U)) ∧
      SameList s (s.newOutBuffer al).1 ∧
      (al.Succeeds → s.Tight (owners (S ++ U)) → (s.newOutBuffer al).1.Tight (owners (S ++ U))) ∧ ∀ ob, (s.newOutBuffer al).2 = some ob →
        (s.newOutBuffer al).1.outBuf = some ob ∧ ((s.newOutBuffer al).1.bufs
          ((s.newOutBuffer al).1.obs ob).buf).offset + (length + length % 2) ≤ bufferSize := by
  have htake : ∀ ob, ob ∉ s.obUse → ({ s with obUse := ob :: s.obUse } : Writer).Good S U := fun ob hob =>
    ⟨g.pools.take hob, fun x hx => ⟨(g.sent x hx).sent, (g.sent x hx).buf, (g.sent x hx).shows, (g.sent x hx).below⟩,
      g.pending.frame (fun _ _ => ⟨rfl, rfl⟩) fun _ _ => rfl⟩
  rcases newOutBuffer_cases al s with h | ⟨ob, hob, ⟨h, hfail⟩ | ⟨b, hb, h⟩⟩
  · rw [h]
    exact ⟨g, .refl _ _, ⟨rfl, rfl, fun _ h => h⟩, fun _ h => h, fun _ h => by cases h⟩
  · rw [h]
    exact ⟨htake ob hob, ⟨fun _ _ => rfl, fun _ _ _ _ => rfl, fun _ _ => Nat.le_refl _, fun _ _ h => h⟩,
      ⟨rfl, rfl, fun _ h => h⟩, fun h => absurd h hfail, fun _ h => by cases h⟩
  · have hfree : ob ∉ s.queue ∧ ob ∉ owners (S ++ U) :=
      ⟨fun hq => hob (g.pools.obUse ob (.inl hq)), fun ho => hob (g.pools.obUse ob (.inr ho))⟩
    have hk := keeps_openBuffer (htake ob hob).pools hfree (b := b) hb
    rw [h]
    refine ⟨openBuffer_good (htake ob hob) hfree hb List.mem_cons_self, ⟨hk.buf, hk.data, hk.offset, hk.queue⟩,
      ⟨rfl, rfl, fun _ h => List.mem_append_left _ h⟩, fun _ h => h.openBuffer hob, fun c hc => ?_⟩
    cases hc
    refine ⟨rfl, ?_⟩
    have hself : (({ s with obUse := ob :: s.obUse } : Writer).openBuffer ob b).obs ob = ⟨b, 0, 0, false⟩ :=
      obs_setOb_self
    have hnew : ((({ s with obUse := ob :: s.obUse } : Writer).openBuffer ob b).bufs b).offset = 0 :=
      congrArg Buffer.offset bufs_setBuf_self
    dsimp only
    rw [hself, hnew]
    simp only [bufferSize] at *
    omega

/-- **The buffer that a packet goes to** has room for it and its pad byte. -/
theorem currentBuffer_good (al : Alloc) (g : s.Good S U) (hle : length ≤ bufferSize) :
    (s.currentBuffer al length).1.Good S U ∧ Keeps s (s.currentBuffer al length).1 (owners (S ++ U)) ∧
      SameList s (s.currentBuffer al length).1 ∧
      (al.Succeeds → s.Tight (owners (S ++ U)) → (s.currentBuffer al length).1.Tight (owners (S ++ U))) ∧ ∀ ob, (s.currentBuffer al length).2 = some ob →
        (s.currentBuffer al length).1.outBuf = some ob ∧ ((s.currentBuffer al length).1.bufs
          ((s.currentBuffer al length).1.obs ob).buf).offset + (length + length % 2) ≤ bufferSize := by
  unfold currentBuffer
  cases hob : s.outBuf with
  | none => exact newOutBuffer_good al g hle
  | some ob =>
    dsimp only
    by_cases h : bufferSize ≤ (s.bufs (s.obs ob).buf).offset + length + 1
    · rw [if_pos h]
      exact newOutBuffer_good al g hle
    · rw [if_neg h]
      refine ⟨g, .refl _ _, ⟨rfl, rfl, fun _ h => h⟩, fun _ h => h, fun c hc => ?_⟩
      cases hc
      refine ⟨hob, ?_⟩
      dsimp only
      simp only [bufferSize] at *
      omega

/-! ## The packet -/

/-- **A packet more** at the end of the current buffer. -/
theorem add_good (g : s.Good S U) (hlast : s.queue.getLast? = some ob) {d : Mem}
    (hd : ∀ i < (s.bufs (s.obs ob).buf).offset, d i = (s.bufs (s.obs ob).buf).data i)
    (hs : Shows (d.from_ (s.bufs (s.obs ob).buf).offset) a)
    (h10 : (d.from_ (s.bufs (s.obs ob).buf).offset).word 10 = 0)
    (hroom : (s.bufs (s.obs ob).buf).offset + a.size ≤ bufferSize)
    (ht : t = (s.setBuf (s.obs ob).buf ⟨(s.bufs (s.obs ob).buf).offset + a.size, d⟩).setOb ob
      { s.obs ob with packetCount := ((s.obs ob).packetCount + 1) % 65536 }) :
    t.Good S (U ++ [(⟨ob, ((s.obs ob).buf, (s.bufs (s.obs ob).buf).offset), false⟩, a)]) ∧
      Keeps s t (owners (S ++ U)) := by
  obtain ⟨q, hq⟩ := List.getLast?_eq_some_iff.1 hlast
  have hob : ob ∈ s.queue := List.mem_of_getLast? hlast
  have hobs : ∀ c, (t.obs c).buf = (s.obs c).buf ∧ (t.obs c).offset = (s.obs c).offset := fun c => by
    rw [ht, obs_setOb]
    split
    · subst c
      exact ⟨rfl, rfl⟩
    · exact ⟨rfl, rfl⟩
  have hbufs : ∀ b ≠ (s.obs ob).buf, t.bufs b = s.bufs b := fun b hb => by
    rw [ht, bufs_setOb, bufs_setBuf_of_ne hb]
  have hself : t.bufs (s.obs ob).buf = ⟨(s.bufs (s.obs ob).buf).offset + a.size, d⟩ := by
    rw [ht, bufs_setOb, bufs_setBuf_self]
  have hle := g.pending.offset_le ob hob
  have hk : Keeps s t (owners (S ++ U)) := by
    apply Keeps.of_update g.pools hob
    · rw [ht]
      rfl
    · exact fun c => ⟨(hobs c).1, Nat.le_of_eq (hobs c).2.symm⟩
    · exact hbufs
    · intro i hi
      rw [hself]
      exact hd i (by omega)
  refine ⟨g.of_keeps hk (fun _ hx => hx) ?_ ?_, hk⟩
  · have := g.pools.add (d := d) hob (Shows.sizeofPacket_le a) hroom
    rw [← ht] at this
    simpa only [owners, List.map_append, List.map_cons, List.map_nil, List.append_assoc] using this
  · have hnd := g.pools.nodup
    have hp := g.pending
    have htq : t.queue = q ++ [ob] := by
      rw [ht, ← hq]
      rfl
    rw [hq] at hnd hp
    rw [htq]
    have hnot : ob ∉ q := fun h => by
      have := List.nodup_append.1 hnd
      exact this.2.2 ob h ob (List.mem_singleton_self ob) rfl
    apply hp.snoc hnot hobs
    · intro c hc
      apply hbufs
      intro he
      have hcob := g.pools.inj c ob (.inl (by rw [hq]; exact List.mem_append_left _ hc)) (.inl hob) he
      exact hnot (hcob ▸ hc)
    · intro V hV
      rw [(hobs ob).1, (hobs ob).2, hself]
      have hm : t.mem ((t.obs ob).buf, (s.bufs (s.obs ob).buf).offset) = d.from_ (s.bufs (s.obs ob).buf).offset := by
        unfold Writer.mem
        rw [(hobs ob).1, hself]
      have hV' : t.Region ob (s.obs ob).offset V (s.bufs (s.obs ob).buf).offset := by
        apply hV.frame (hobs ob).1
        intro i _ hi
        rw [hself]
        exact hd i hi
      have := hV'.snoc (a := a) (by rw [hm]; exact hs) (by rw [hm]; exact h10)
      rwa [(hobs ob).1] at this

/-! ## The old packets -/

theorem releaseOutPacket_setBuf (s : Writer) (op : OutPacket) (b : BufPtr) (w : Buffer) :
    (s.setBuf b w).releaseOutPacket op = (s.releaseOutPacket op).setBuf b w := by
  unfold releaseOutPacket
  dsimp only
  simp only [obs_setBuf, obs_setOb_self]
  split
  · rfl
  · rfl

/-- Dropping packets and storing into a buffer commute. -/
theorem trim_setBuf (b : BufPtr) (w : Buffer) : ∀ (ops : List OutPacket) (s : Writer),
    trim ops (s.setBuf b w) = (trim ops s).map fun t => t.setBuf b w
  | [], s => by
    unfold trim
    by_cases h : s.recentCount ≤ recentPacketsToKeep
    · rw [if_pos h, if_pos (show (s.setBuf b w).recentCount ≤ recentPacketsToKeep from h)]
      rfl
    · rw [if_neg h, if_neg (show ¬(s.setBuf b w).recentCount ≤ recentPacketsToKeep from h)]
      rfl
  | op :: ops, s => by
    unfold trim
    by_cases h : s.recentCount ≤ recentPacketsToKeep
    · rw [if_pos h, if_pos (show (s.setBuf b w).recentCount ≤ recentPacketsToKeep from h)]
      rfl
    · rw [if_neg h, if_neg (show ¬(s.setBuf b w).recentCount ≤ recentPacketsToKeep from h)]
      dsimp only
      by_cases hs : op.sent = true
      · rw [if_pos hs, if_pos hs, ← trim_setBuf b w ops, releaseOutPacket_setBuf]
        rfl
      · rw [if_neg hs, if_neg hs]
        rfl

theorem releaseOutPacket_obs (s : Writer) (op : OutPacket) (c : ObPtr) :
    ((s.releaseOutPacket op).obs c).buf = (s.obs c).buf ∧ ((s.releaseOutPacket op).obs c).offset = (s.obs c).offset := by
  have h : ∀ n, ((s.setOb op.outBuf { s.obs op.outBuf with packetCount := n }).obs c).buf = (s.obs c).buf ∧
      ((s.setOb op.outBuf { s.obs op.outBuf with packetCount := n }).obs c).offset = (s.obs c).offset := fun n => by
    rw [obs_setOb]
    split
    · subst c
      exact ⟨rfl, rfl⟩
    · exact ⟨rfl, rfl⟩
  unfold releaseOutPacket
  dsimp only
  split
  · exact h _
  · exact h _

theorem releaseOutPacket_bufs (s : Writer) (op : OutPacket) : (s.releaseOutPacket op).bufs = s.bufs := by
  unfold releaseOutPacket
  dsimp only
  split <;> rfl

theorem releaseOutPacket_queue (s : Writer) (op : OutPacket) : (s.releaseOutPacket op).queue = s.queue := by
  unfold releaseOutPacket
  dsimp only
  split <;> rfl

theorem keeps_releaseOutPacket (s : Writer) (op : OutPacket) : Keeps s (s.releaseOutPacket op) os := by
  constructor
  · exact fun c _ => (releaseOutPacket_obs s op c).1
  · intro c _ i _
    rw [releaseOutPacket_bufs]
  · exact fun c _ => Nat.le_of_eq (releaseOutPacket_obs s op c).2.symm
  · intro c _ hc
    rwa [releaseOutPacket_queue] at hc

/-- **An old packet is dropped.** -/
theorem release_good (g : s.Good (x :: S) U) : (s.releaseOutPacket x.1).Good S U := by
  have hk : Keeps s (s.releaseOutPacket x.1) (owners (x :: S ++ U)) := keeps_releaseOutPacket s x.1
  apply g.of_keeps hk (fun _ => List.mem_cons_of_mem _)
  · exact g.pools.release
  · rw [releaseOutPacket_queue]
    exact g.pending.frame (fun c _ => releaseOutPacket_obs s x.1 c) fun c _ => by rw [releaseOutPacket_bufs]

theorem release_tight (g : s.Good (x :: S) U) (h : s.Tight (owners (x :: S ++ U))) :
    (s.releaseOutPacket x.1).Tight (owners (S ++ U)) := by
  have hk : s.Pools (x.1.outBuf :: owners (S ++ U)) := g.pools
  have ht : s.Tight (x.1.outBuf :: owners (S ++ U)) := h
  exact ht.release hk

/-- **Old packets are dropped**, as many as are too many and sent. -/
theorem trim_good {V : List Listed} (hU : ∀ x ∈ U, x.1.sent = false) : ∀ (S : List Listed) (s : Writer),
    s.Good S (U ++ V) → s.recentCount = (S ++ U).length % 65536 →
    ∃ k s', trim ((S ++ U).map Prod.fst) s = some s' ∧ k ≤ S.length ∧ k ≤ s.recentCount - recentPacketsToKeep ∧
      s'.Good (S.drop k) (U ++ V) ∧ (∀ os, Keeps s s' os) ∧
      (s.Tight (owners (S ++ (U ++ V))) → s'.Tight (owners (S.drop k ++ (U ++ V)))) ∧ s'.recents = (S.drop k ++ U).map Prod.fst ∧
      s'.recentCount = (S.drop k ++ U).length % 65536 ∧ s'.bufs = s.bufs ∧ s'.queue = s.queue := by
  have hstop : ∀ (S : List Listed) (s : Writer), s.Good S (U ++ V) → s.recentCount = (S ++ U).length % 65536 →
      trim ((S ++ U).map Prod.fst) s = some { s with recents := (S ++ U).map Prod.fst } →
      ∃ k s', trim ((S ++ U).map Prod.fst) s = some s' ∧ k ≤ S.length ∧ k ≤ s.recentCount - recentPacketsToKeep ∧
        s'.Good (S.drop k) (U ++ V) ∧ (∀ os, Keeps s s' os) ∧
        (s.Tight (owners (S ++ (U ++ V))) → s'.Tight (owners (S.drop k ++ (U ++ V)))) ∧ s'.recents = (S.drop k ++ U).map Prod.fst ∧
        s'.recentCount = (S.drop k ++ U).length % 65536 ∧ s'.bufs = s.bufs ∧ s'.queue = s.queue :=
    fun S s g hc h => ⟨0, _, h, Nat.zero_le _, Nat.zero_le _, g.congr rfl rfl rfl rfl rfl rfl rfl,
      fun _ => .of_eq rfl rfl rfl, fun h => h.congr rfl rfl (fun _ => rfl) fun _ h => h, rfl, hc, rfl, rfl⟩
  intro S
  induction S with
  | nil =>
    intro s g hc
    apply hstop [] s g hc
    cases U with
    | nil =>
      unfold trim
      have : s.recentCount ≤ recentPacketsToKeep := by
        rw [hc]
        exact Nat.zero_le _
      rw [if_pos this]
    | cons y U =>
      have hy : y.1.sent = false := hU y List.mem_cons_self
      simp only [List.nil_append, List.map_cons]
      unfold trim
      split
      · rfl
      · simp only [hy, Bool.false_eq_true, if_false]
  | cons x S ih =>
    intro s g hc
    by_cases hle : s.recentCount ≤ recentPacketsToKeep
    · apply hstop (x :: S) s g hc
      simp only [List.cons_append, List.map_cons]
      unfold trim
      rw [if_pos hle]
    · have hx : x.1.sent = true := (g.sent x List.mem_cons_self).sent
      let s₁ : Writer := { s.releaseOutPacket x.1 with recentCount := (s.recentCount + 65535) % 65536 }
      have hq₁ : s₁.queue = s.queue := releaseOutPacket_queue s x.1
      have hlen : s₁.recentCount = (S ++ U).length % 65536 := by
        show (s.recentCount + 65535) % 65536 = _
        rw [hc, List.cons_append, List.length_cons]
        omega
      obtain ⟨k, s', ht, hkS, hk, g', hkeep, htight, hrec, hcnt, hbufs, hq⟩ :=
        ih s₁ ((release_good g).congr rfl rfl rfl rfl rfl rfl rfl) hlen
      refine ⟨k + 1, s', ?_, Nat.succ_le_succ hkS, ?_, g', ?_, fun h => ?_, hrec, hcnt, ?_, ?_⟩
      · simp only [List.cons_append, List.map_cons]
        unfold trim
        rw [if_neg hle]
        dsimp only
        rw [if_pos hx]
        exact ht
      · have h₁ : s₁.recentCount = (s.recentCount + 65535) % 65536 := rfl
        have h₂ : s.recentCount < 65536 := by omega
        simp only [recentPacketsToKeep] at hle hk ⊢
        omega
      · intro os
        have hk₁ : Keeps s s₁ os := ⟨(keeps_releaseOutPacket s x.1).buf, (keeps_releaseOutPacket s x.1).data,
          (keeps_releaseOutPacket s x.1).offset, (keeps_releaseOutPacket s x.1).queue⟩
        apply hk₁.trans (hkeep os)
        intro c hc
        unfold Live at hc ⊢
        rwa [hq₁]
      · apply htight
        have hq₂ : s₁.queue = (s.releaseOutPacket x.1).queue := rfl
        refine (release_tight g h).congr (show s₁.obUse = (s.releaseOutPacket x.1).obUse from rfl) rfl (fun _ => rfl)
          fun c hc => ?_
        unfold Live at hc ⊢
        rwa [hq₂]
      · rw [hbufs]
        exact releaseOutPacket_bufs s x.1
      · rw [hq, hq₁]

/-! ## The whole -/

/-- What the caller of `APB_AllocPacket` makes of its packet. -/
def filled (type : UInt8) (connId packId : UInt16) (payload : List UInt8) : Incoming :=
  ⟨type, if payload.length % 2 = 1 then padByte else 0, connId, packId, payload⟩

/-- The caller makes of a new packet what it should be, and stores nothing in front of it. -/
theorem fill_filled {p : Addr} {n : Nat} {d : Mem} (hb : s.bufs p.1 = ⟨n, d⟩) (hs : Shows (d.from_ p.2) a)
    (h10 : (d.from_ p.2).word 10 = 0) (type : UInt8) (connId : UInt16) {payload : List UInt8}
    (hpay : payload.length = a.data.length) : ∃ d' : Mem, s.fill p type connId payload = s.setBuf p.1 ⟨n, d'⟩ ∧
      (∀ i < p.2, d' i = d i) ∧ Shows (d'.from_ p.2) (filled type connId a.packId payload) ∧
      (d'.from_ p.2).word 10 = 0 ∧ (filled type connId a.packId payload).size = a.size := by
  have hmem : s.mem p = d.from_ p.2 := by
    unfold mem
    rw [hb]
  have hview : (⟨type, a.flags, connId, a.packId, payload⟩ : Incoming) = filled type connId a.packId payload := by
    rw [hs.pad, ← hpay]
    rfl
  rw [← hmem] at hs h10
  obtain ⟨d', hfill, hd', hshow, h10'⟩ := fill_spec hs h10 type connId hpay
  rw [hb] at hfill hd'
  rw [hview] at hshow
  refine ⟨d', hfill, fun i hi => hd' i (.inl hi), hshow, h10', ?_⟩
  simp only [Incoming.size, filled, hpay]

/-- A packet more, in a buffer that is in use. -/
theorem Tight.add {b : BufPtr} {w : Buffer} {n : Nat} (h : s.Tight (owners (S ++ U))) (x : Listed) :
    ((s.setBuf b w).setOb ob { s.obs ob with packetCount := n }).Tight (owners (S ++ (U ++ [x]))) := by
  refine h.congr rfl rfl (fun c => ?_) fun c hc => ?_
  · rw [obs_setOb]
    split
    · subst c
      rfl
    · rfl
  · rw [← List.append_assoc, owners_append]
    exact hc.imp_right (List.mem_append_left _)

/-- A new packet in the current buffer, filled in. -/
theorem addPacket_valid (v : s.Valid S U) (hob : s.outBuf = some ob) (h14 : sizeofPacket ≤ length)
    (hle : length ≤ bufferSize) (hroom : (s.bufs (s.obs ob).buf).offset + (length + length % 2) ≤ bufferSize)
    (packId : UInt16) : ∃ s' k,
    trim (s.addPacket ob length packId).1.recents (s.addPacket ob length packId).1 = some s' ∧ s'.queue = s.queue ∧
      k ≤ S.length ∧ k ≤ s.recentCount - recentPacketsToKeep ∧
      ∀ (type : UInt8) (connId : UInt16) (payload : List UInt8), payload.length = length - sizeofPacket →
        (({ s' with recents := s'.recents ++ [(s.addPacket ob length packId).2],
                    recentCount := (s'.recentCount + 1) % 65536 } : Writer).fill
          (s.addPacket ob length packId).2.pac type connId payload).Valid (S.drop k)
            (U ++ [((s.addPacket ob length packId).2, filled type connId packId payload)]) ∧
        Keeps s (({ s' with recents := s'.recents ++ [(s.addPacket ob length packId).2],
                            recentCount := (s'.recentCount + 1) % 65536 } : Writer).fill
          (s.addPacket ob length packId).2.pac type connId payload) (owners (S ++ U)) ∧
        (s.Tight (owners (S ++ U)) →
          (({ s' with recents := s'.recents ++ [(s.addPacket ob length packId).2],
                      recentCount := (s'.recentCount + 1) % 65536 } : Writer).fill
            (s.addPacket ob length packId).2.pac type connId payload).Tight
              (owners (S.drop k ++ (U ++ [((s.addPacket ob length packId).2, filled type connId packId payload)])))) := by
  obtain ⟨d, a, hadd, hd, hs, h10, hid, hdata⟩ := addPacket_spec s ob packId h14 hle
  have hlast : s.queue.getLast? = some ob := v.pools.outBuf.symm.trans hob
  have hsize : a.size = length + length % 2 := by
    simp only [sizeofPacket] at h14
    simp only [Incoming.size, hdata, sizeofPacket]
    omega
  have hU : ∀ x ∈ U, x.1.sent = false := fun x hx => (v.pending.owner x hx).2
  rw [← hsize] at hroom
  rw [hadd]
  generalize hb : (s.obs ob).buf = b at *
  generalize hoff : (s.bufs b).offset = off at *
  let t (d : Mem) : Writer := (s.setBuf b ⟨off + a.size, d⟩).setOb ob
    { s.obs ob with packetCount := ((s.obs ob).packetCount + 1) % 65536 }
  have hgood : ∀ (d : Mem) (a' : Incoming), a'.size = a.size → (∀ i < off, d i = (s.bufs b).data i) →
      Shows (d.from_ off) a' → (d.from_ off).word 10 = 0 →
      (t d).Good S (U ++ [(⟨ob, (b, off), false⟩, a')]) ∧ Keeps s (t d) (owners (S ++ U)) := by
    intro d a' ha' hd hs h10
    have := add_good (t := t d) (d := d) (a := a') v.toGood hlast
    rw [hb, hoff, ha'] at this
    exact this hd hs h10 hroom rfl
  obtain ⟨g, hk⟩ := hgood d a rfl hd hs h10
  have hrec : (t d).recents = (S ++ U).map Prod.fst := v.recents
  obtain ⟨k, s', ht, hkS, hkc, -, -, -, hrec', hcnt', hbufs', hq'⟩ := trim_good hU S (t d) g v.recentCount
  refine ⟨s', k, ?_, hq', hkS, hkc, fun type connId payload hpay => ?_⟩
  · dsimp only
    rw [← ht, ← hrec]
  have hb' : s'.bufs b = ⟨off + a.size, d⟩ := by
    rw [hbufs']
    exact bufs_setBuf_self
  dsimp only
  set s₂ : Writer := { s' with recents := s'.recents ++ [⟨ob, (b, off), false⟩],
                               recentCount := (s'.recentCount + 1) % 65536 } with hs₂
  obtain ⟨d₂, hfill, hd₂, hshow, h10₂, hsz⟩ := fill_filled (s := s₂) (p := (b, off)) hb' hs h10 type connId
    (hpay.trans hdata.symm)
  rw [hid] at hshow hsz
  dsimp only at hfill hd₂ hshow h10₂
  obtain ⟨g₂, hk₂⟩ := hgood d₂ _ hsz (fun i hi => (hd₂ i hi).trans (hd i hi)) hshow h10₂
  -- the same packets are dropped whatever the payload
  obtain ⟨k', s'', ht', hkS', -, g'', hk'', htight, hrec'', -⟩ := trim_good hU S (t d₂) g₂ v.recentCount
  have htt : t d₂ = (t d).setBuf b ⟨off + a.size, d₂⟩ := by
    simp only [t, setOb, setBuf, Function.update_idem]
  rw [htt, trim_setBuf, ht, Option.map_some, Option.some.injEq] at ht'
  have hkk : k' = k := by
    have hl : (S.drop k' ++ U).map Prod.fst = (S.drop k ++ U).map Prod.fst := by
      rw [← hrec', ← hrec'', ← ht']
      rfl
    have := congrArg List.length hl
    simp only [List.length_map, List.length_append, List.length_drop] at this
    omega
  subst hkk
  rw [hfill]
  have hgf : (s₂.setBuf b ⟨off + a.size, d₂⟩).Good (S.drop k')
      (U ++ [(⟨ob, (b, off), false⟩, filled type connId packId payload)]) := by
    rw [← ht'] at g''
    exact g''.congr rfl rfl rfl rfl rfl rfl rfl
  refine ⟨⟨hgf, ?_, ?_⟩, ?_, fun h => ?_⟩
  · show s'.recents ++ [_] = _
    rw [hrec']
    simp only [List.map_append, List.map_cons, List.map_nil, List.append_assoc]
  · show (s'.recentCount + 1) % 65536 = _
    rw [hcnt']
    simp only [List.length_append, List.length_cons, List.length_nil]
    omega
  · have h₁ : Keeps (t d₂) (s₂.setBuf b ⟨off + a.size, d₂⟩) (owners (S ++ U)) := by
      have := hk'' (owners (S ++ U))
      rw [← ht'] at this
      exact ⟨this.buf, this.data, this.offset, this.queue⟩
    exact hk₂.trans h₁ fun c hc => hc
  · rw [← ht'] at htight
    exact (htight (h.add _)).congr rfl rfl (fun _ => rfl) fun _ h => h

/-- **Allocating a packet and filling it in** adds it to the unsent ones and drops old ones. -/
theorem alloc_valid (al : Alloc) (v : s.Valid S U) (length : Nat) (packId : UInt16) :
    ∃ s' r, allocPacketWithId al s length packId = some (s', r) ∧ (∀ c ∈ s.queue, c ∈ s'.queue) ∧
      (r = none ∧ s'.Valid S U ∧ Keeps s s' (owners (S ++ U)) ∧
          (al.Succeeds → s.Tight (owners (S ++ U)) → s'.Tight (owners (S ++ U))) ∨
        ∃ ob p k, r = some p ∧ Allocates al s length ∧ k ≤ S.length ∧ k ≤ s.recentCount - recentPacketsToKeep ∧
          ∀ (type : UInt8) (connId : UInt16) (payload : List UInt8), payload.length = length - sizeofPacket →
            (s'.fill p type connId payload).Valid (S.drop k)
              (U ++ [(⟨ob, p, false⟩, filled type connId packId payload)]) ∧
            Keeps s (s'.fill p type connId payload) (owners (S ++ U)) ∧
            (al.Succeeds → s.Tight (owners (S ++ U)) → (s'.fill p type connId payload).Tight
              (owners (S.drop k ++ (U ++ [(⟨ob, p, false⟩, filled type connId packId payload)]))))) := by
  unfold allocPacketWithId
  by_cases hle : bufferSize < length
  · exact ⟨s, none, if_pos hle, fun _ h => h, .inl ⟨rfl, v, .refl _ _, fun _ h => h⟩⟩
  rw [if_neg hle]
  by_cases h14 : length < sizeofPacket
  · exact ⟨s, none, if_pos h14, fun _ h => h, .inl ⟨rfl, v, .refl _ _, fun _ h => h⟩⟩
  rw [if_neg h14]
  obtain ⟨g₁, hk₁, hsame, htight, hroom⟩ := currentBuffer_good al v.toGood (Nat.not_lt.1 hle)
  have hallocates : ∀ ob s₁, s.currentBuffer al length = (s₁, some ob) → al.outPacket s₁ = true →
      Allocates al s length := fun ob s₁ h hp => by
    unfold Allocates
    rw [h]
    exact ⟨Nat.not_lt.1 h14, Nat.not_lt.1 hle, rfl, hp⟩
  rcases hcur : s.currentBuffer al length with ⟨s₁, r₁⟩
  rw [hcur] at g₁ hk₁ hsame htight hroom
  dsimp only at g₁ hk₁ hsame htight hroom
  have v₁ : s₁.Valid S U := ⟨g₁, hsame.recents.trans v.recents, hsame.recentCount.trans v.recentCount⟩
  cases r₁ with
  | none => exact ⟨s₁, none, rfl, hsame.queue, .inl ⟨rfl, v₁, hk₁, htight⟩⟩
  | some ob =>
    dsimp only
    by_cases hp : al.outPacket s₁ = true
    case neg => exact ⟨s₁, none, if_neg hp, hsame.queue, .inl ⟨rfl, v₁, hk₁, htight⟩⟩
    rw [if_pos hp]
    obtain ⟨hob, hroom⟩ := hroom ob rfl
    have hlast : s₁.queue.getLast? = some ob := g₁.pools.outBuf.symm.trans hob
    obtain ⟨s', k, ht, hq, hkS, hkc, hfill⟩ :=
      addPacket_valid v₁ hob (Nat.not_lt.1 h14) (Nat.not_lt.1 hle) hroom packId
    refine ⟨_, _, by rw [ht, Option.map_some], fun c hc => ?_, .inr ⟨ob, _, k, rfl, hallocates ob s₁ hcur hp, hkS, ?_,
      fun type connId payload hpay => ?_⟩⟩
    · dsimp only
      rw [hq]
      exact hsame.queue c hc
    · rw [← hsame.recentCount]
      exact hkc
    · obtain ⟨v₂, hk₂, htight₂⟩ := hfill type connId payload hpay
      exact ⟨v₂, hk₁.trans hk₂ fun c hc => hc.imp_left (hsame.queue c), fun hal h => htight₂ (htight hal h)⟩

end AmiPiBorg.Writer
