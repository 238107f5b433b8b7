import AmiPiBorg.Writer.Alloc

/-!
# Writing a buffer

`send_region` is the loop of `APB_WriteBuffer` over the packets that the head buffer has to send: every one gets a
checksum that closes it (`Shows.complete`), and what lies in the buffer then are whole packets. `handedOver` is the
writer after that. `writeBuffer_valid` is the function: the bytes that it hands over are packets, the ones that come
next.
-/

set_option autoImplicit false

namespace AmiPiBorg.Writer

open ProgLib

/-- The packet, sent. -/
def mark (x : Listed) : Listed := ({ x.1 with sent := true }, x.2)

variable {s s' : Writer} {ob : ObPtr} {i j : Nat} {a : Incoming} {x : Listed} {S U : List Listed} {q : List ObPtr}

theorem owners_mark (U : List Listed) : owners (U.map mark) = owners U := by
  unfold owners
  rw [List.map_map]
  rfl

theorem owners_marked (S U V : List Listed) : owners (S ++ U.map mark ++ V) = owners (S ++ (U ++ V)) := by
  rw [owners_append, owners_append, owners_mark, ← List.append_assoc, owners_append, owners_append]

/-! ## The loop -/

theorem sendPackets_append (ob : ObPtr) : ∀ (l₁ l₂ : List OutPacket) (s : Writer),
    sendPackets ob s (l₁ ++ l₂) = (sendPackets ob s l₁).bind fun r =>
      (sendPackets ob r.1 l₂).map fun r' => (r'.1, r.2 ++ r'.2)
  | [], l₂, s => by
    simp only [List.nil_append, sendPackets, Option.bind_some]
    exact Option.map_id'.symm
  | op :: l₁, l₂, s => by
    simp only [List.cons_append, sendPackets, sendPackets_append ob l₁ l₂]
    split
    · cases calculateChecksum (s.mem op.pac) (s.packetSize op.pac) with
      | none => rfl
      | some c =>
        simp only [Option.bind_some, Option.map_bind, Option.bind_map]
        congr 1
        funext r
        simp only [Option.map_map, Function.comp_def, List.cons_append]
    · simp only [Option.map_bind, Option.bind_map]
      congr 1
      funext r
      simp only [Option.map_map, Function.comp_def, List.cons_append]

/-- Packets of other buffers, and those that are sent, are passed over. -/
theorem sendPackets_skip (ob : ObPtr) (s : Writer) : ∀ (l : List OutPacket),
    (∀ op ∈ l, ¬(op.outBuf = ob ∧ op.sent = false)) → sendPackets ob s l = some (s, l)
  | [], _ => rfl
  | op :: l, h => by
    simp only [sendPackets]
    rw [if_neg (h op List.mem_cons_self), sendPackets_skip ob s l fun o ho => h o (List.mem_cons_of_mem _ ho)]
    rfl

theorem packetSize_eq {p : Addr} (h : Shows (s.mem p) a) (ha : a.size ≤ bufferSize) : s.packetSize p = a.size := by
  have hl : (s.header p).length.toNat = a.data.length := h.length
  simp only [Incoming.size, sizeofPacket, bufferSize] at ha
  simp only [packetSize, hl, Incoming.size, sizeofPacket]
  split <;> omega

/-- **A packet that gets its checksum is whole**, wherever it is seen. -/
theorem Shows.complete {m : Mem} (h : Shows m a) (h₁₀ : m.word 10 = 0) (ha : a.size ≤ bufferSize) :
    ∃ c, calculateChecksum m a.size = some c ∧ ∀ m' : Mem, (∀ k < a.size, m' k = m.store 10 (be16 c) k) →
      Shows m' a ∧ ∃ p : WirePacket, p.bytes = m'.slice 0 a.size ∧ p.incoming = a ∧ sentBytes m a = some p.bytes := by
  have h14 := Shows.sizeofPacket_le a
  have heven := Shows.size_even a
  simp only [sizeofPacket] at h14
  have hlt : a.size < 65536 := by
    simp only [bufferSize] at ha
    omega
  obtain ⟨c, hc, hcheck⟩ := calculateChecksum_store (k := 5) heven hlt (by omega) h₁₀ (h.wordSum_pos (by omega))
  refine ⟨c, hc, fun m' hm => ?_⟩
  have hother : ∀ k < a.size, k ≠ 10 → k ≠ 11 → m' k = m k := by
    intro k hk h₀ h₁
    rw [hm k hk]
    rcases Nat.lt_or_ge k 10 with hlt | hge
    · exact Mem.store_of_lt hlt
    · apply Mem.store_of_ge
      rw [length_be16]
      omega
  have hshow : Shows m' a := h.congr hother
  have hword : m'.word (2 * 5) = c := by
    rw [Mem.word_congr (hm 10 (by omega)) (hm 11 (by omega))]
    exact Mem.word_store _ 10 c
  have hclose : calculateChecksum m' a.size = some 0xFFFF := hcheck _ hword hother
  obtain ⟨p, hp, hin⟩ := WirePacket.exists_ofMem hshow.id (by rw [hshow.view]; exact hshow.padded)
    (by rw [hshow.view]; exact ha) (by rw [hshow.view]; exact hclose)
  rw [hshow.view] at hp hin
  refine ⟨hshow, p, hp, hin, ?_⟩
  unfold sentBytes
  rw [hc, Option.map_some, hp]
  exact congrArg some (Mem.slice_congr fun k hk => by rw [Nat.zero_add, hm k hk])

/-- **The packets of a region are completed.** -/
theorem send_region {b : BufPtr} (hj : j ≤ bufferSize) : ∀ (U : List Listed) (s : Writer) (i : Nat),
    (s.obs ob).buf = b → s.Region ob i U j → ∃ (d : Mem) (ps : List WirePacket),
      sendPackets ob s (U.map Prod.fst) =
        some (s.setBuf b ⟨(s.bufs b).offset, d⟩, (U.map mark).map Prod.fst) ∧
      (∀ k, k < i ∨ j ≤ k → d k = (s.bufs b).data k) ∧
      ps.flatMap WirePacket.bytes = d.slice i (j - i) ∧ ps.map WirePacket.incoming = U.map Prod.snd ∧
      (ps.map fun p => some p.bytes) = (U.map fun x => sentBytes (s.mem x.1.pac) x.2) ∧
      ∀ x ∈ U, x.1.outBuf = ob ∧ x.1.pac.1 = b ∧ Shows (d.from_ x.1.pac.2) x.2 ∧ x.1.pac.2 + x.2.size ≤ j := by
  intro U
  induction U with
  | nil =>
    intro s i hb hr
    cases hr with
    | nil =>
      refine ⟨(s.bufs b).data, [], ?_, fun _ _ => rfl, ?_, rfl, rfl, fun x hx => by cases hx⟩
      · rw [setBuf_self]
        rfl
      · rw [Nat.sub_self]
        rfl
  | cons x U ih =>
    intro s i hb hr
    cases hr with
    | @cons _ _ a _ hs h10 hr =>
      rw [hb] at hs h10
      have hle := hr.le
      have h14 := Shows.sizeofPacket_le a
      have hsize : s.packetSize (b, i) = a.size := packetSize_eq hs (by omega)
      simp only [sizeofPacket] at h14
      -- the checksum of the first packet
      obtain ⟨c, hc, hcomplete⟩ := hs.complete h10 (by omega)
      let d₁ : Mem := (s.bufs b).data.store (i + 10) (be16 c)
      let s₁ : Writer := s.setBuf b ⟨(s.bufs b).offset, d₁⟩
      have hd₁ : ∀ k, k ≠ i + 10 → k ≠ i + 11 → d₁ k = (s.bufs b).data k := by
        intro k h₀ h₁
        rcases Nat.lt_or_ge k (i + 10) with h | h
        · exact Mem.store_of_lt h
        · apply Mem.store_of_ge
          rw [length_be16]
          omega
      have hb₁ : s₁.bufs b = ⟨(s.bufs b).offset, d₁⟩ := bufs_setBuf_self
      have hr₁ : s₁.Region ob (i + a.size) U j := by
        refine hr.frame rfl fun k hk _ => ?_
        rw [hb, hb₁]
        exact hd₁ k (by omega) (by omega)
      obtain ⟨d, ps, hsend, hd, hbytes, hview, hsent, hU⟩ := ih s₁ (i + a.size) hb hr₁
      rw [hb₁] at hsend hd
      -- what is stored for the others leaves the first one alone
      have hdi : ∀ k < a.size, (d.from_ i) k = (s.mem (b, i)).store 10 (be16 c) k := fun k hk =>
        (hd (i + k) (.inl (by omega))).trans (Mem.store_from_ _ i 10 _ k).symm
      obtain ⟨hshow, p, hp, hin, hfirst⟩ := hcomplete _ hdi
      have hlater : ∀ y ∈ U, s₁.mem y.1.pac = s.mem y.1.pac := by
        intro y hy
        have hbehind := hr₁.behind y hy
        have hyb : y.1.pac.1 = b := (hr₁.inside y hy).1.trans (by rw [(hr₁.owner y hy).1]; exact hb)
        funext k
        show (s₁.bufs y.1.pac.1).data _ = (s.bufs y.1.pac.1).data _
        rw [hyb, hb₁]
        exact hd₁ _ (by omega) (by omega)
      refine ⟨d, p :: ps, ?_, ?_, ?_, ?_, ?_, ?_⟩
      · simp only [List.map_cons, sendPackets, hb, hsize, hc, and_self, if_true, Option.bind_some]
        show (sendPackets ob s₁ (U.map Prod.fst)).map _ = _
        rw [hsend]
        simp only [Option.map_some, s₁, setBuf_setBuf]
        rfl
      · intro k hk
        rw [hd k (by omega)]
        exact hd₁ k (by omega) (by omega)
      · rw [List.flatMap_cons, hp, hbytes, Mem.slice_from_, show j - i = a.size + (j - (i + a.size)) by omega,
          Mem.slice_append, Nat.add_zero]
      · rw [List.map_cons, List.map_cons, hin, hview]
      · rw [List.map_cons, List.map_cons, hb, hfirst, hsent, List.map_congr_left fun y hy => by rw [hlater y hy]]
      · intro y hy
        rcases List.mem_cons.1 hy with rfl | hy
        · exact ⟨rfl, hb, by dsimp only; exact hshow, hle⟩
        · exact hU y hy

/-! ## Bytes on their way -/

/-- The bytes of a write lie where they lay when it began, in a live buffer. -/
structure Flying (s : Writer) (os : List ObPtr) (w : Write) : Prop where
  live : s.Live os w.outBuf
  buf : w.data.1 = (s.obs w.outBuf).buf
  bytes : (s.bufs w.data.1).data.slice w.data.2 w.bytes.length = w.bytes
  below : w.outBuf ∈ s.queue → w.data.2 + w.bytes.length ≤ (s.obs w.outBuf).offset

theorem Flying.keeps {os os' : List ObPtr} {w : Write} (h : s.Flying os w) (hk : Keeps s s' os)
    (hl : s'.Live os' w.outBuf) : s'.Flying os' w := by
  obtain ⟨hd, hb⟩ := hk.range h.live h.below
  refine ⟨hl, h.buf.trans (hk.buf _ h.live).symm, ?_, hb⟩
  refine Eq.trans (Mem.slice_congr ?_) h.bytes
  intro i hi
  rw [h.buf]
  exact hd (w.data.2 + i) (by omega)

/-! ## The function -/

/-- The same objects are in use, in the same pairs. -/
structure SameUse (s s' : Writer) : Prop where
  obUse : s'.obUse = s.obUse
  bufUse : s'.bufUse = s.bufUse
  buf : ∀ c, (s'.obs c).buf = (s.obs c).buf

theorem SameUse.trans {t : Writer} (h : SameUse s s') (h' : SameUse s' t) : SameUse s t :=
  ⟨h'.obUse.trans h.obUse, h'.bufUse.trans h.bufUse, fun c => (h'.buf c).trans (h.buf c)⟩

section HandedOver

variable {d : Mem} {ops : List OutPacket} {os : List ObPtr} {U₁ U₂ : List Listed}

/-- The writer once the unsent bytes of `ob` are handed over: its buffer holds `d`, and `ops` are listed. -/
def handedOver (s : Writer) (ob : ObPtr) (d : Mem) (ops : List OutPacket) : Writer :=
  Writer.setOb { s.setBuf (s.obs ob).buf ⟨(s.bufs (s.obs ob).buf).offset, d⟩ with recents := ops } ob
    { s.obs ob with offset := (s.bufs (s.obs ob).buf).offset }

theorem handedOver_obs (c : ObPtr) : ((s.handedOver ob d ops).obs c).buf = (s.obs c).buf ∧
    ((s.handedOver ob d ops).obs c).packetCount = (s.obs c).packetCount ∧
    ((s.handedOver ob d ops).obs c).canRelease = (s.obs c).canRelease := by
  unfold handedOver
  rw [obs_setOb]
  split
  · subst c
    exact ⟨rfl, rfl, rfl⟩
  · exact ⟨rfl, rfl, rfl⟩

theorem handedOver_offset (c : ObPtr) : ((s.handedOver ob d ops).obs c).offset =
    if c = ob then (s.bufs (s.obs ob).buf).offset else (s.obs c).offset := by
  unfold handedOver
  rw [obs_setOb]
  split <;> rfl

@[simp] theorem handedOver_bufs_self :
    (s.handedOver ob d ops).bufs (s.obs ob).buf = ⟨(s.bufs (s.obs ob).buf).offset, d⟩ := bufs_setBuf_self

theorem handedOver_bufs_of_ne {b : BufPtr} (h : b ≠ (s.obs ob).buf) : (s.handedOver ob d ops).bufs b = s.bufs b :=
  bufs_setBuf_of_ne h

theorem pools_handedOver (k : s.Pools os) : (s.handedOver ob d ops).Pools os := by
  refine k.congr rfl rfl rfl rfl rfl handedOver_obs fun c => ?_
  by_cases hc : c = (s.obs ob).buf
  · rw [hc, handedOver_bufs_self]
  · rw [handedOver_bufs_of_ne hc]

section Before

variable (hle : (s.obs ob).offset ≤ (s.bufs (s.obs ob).buf).offset)
  (hd : ∀ k < (s.obs ob).offset, d k = (s.bufs (s.obs ob).buf).data k)
include hle hd

theorem keeps_handedOver (k : s.Pools os) (hob : ob ∈ s.queue) : Keeps s (s.handedOver ob d ops) os := by
  refine .of_update k hob rfl (fun c => ⟨(handedOver_obs c).1, ?_⟩) (fun b hb => handedOver_bufs_of_ne hb) fun i hi => ?_
  · rw [handedOver_offset]
    split
    · subst c
      exact hle
    · exact Nat.le_refl _
  · rw [handedOver_bufs_self]
    exact hd i hi

/-- **Packets that are handed over** are marked and lie where they lay. -/
theorem valid_handedOver (v : s.Valid S (U₁ ++ U₂)) (hq : s.queue = ob :: q) (hp : s.Pending q U₂)
    (hU : ∀ x ∈ U₁, x.1.outBuf = ob ∧ x.1.pac.1 = (s.obs ob).buf ∧ Shows (d.from_ x.1.pac.2) x.2 ∧
      x.1.pac.2 + x.2.size ≤ (s.bufs (s.obs ob).buf).offset) :
    (s.handedOver ob d ((S ++ U₁.map mark ++ U₂).map Prod.fst)).Valid (S ++ U₁.map mark) U₂ := by
  set t := s.handedOver ob d ((S ++ U₁.map mark ++ U₂).map Prod.fst) with ht
  have hob : ob ∈ s.queue := by
    rw [hq]
    exact List.mem_cons_self
  have hnot : ob ∉ q := by
    have hnd := v.pools.nodup
    rw [hq] at hnd
    exact (List.nodup_cons.1 hnd).1
  have hk : Keeps s t (owners (S ++ (U₁ ++ U₂))) := keeps_handedOver hle hd v.pools hob
  have hself : (t.obs ob).offset = (s.bufs (s.obs ob).buf).offset := by rw [ht, handedOver_offset, if_pos rfl]
  refine ⟨⟨?_, ?_, ?_⟩, rfl, ?_⟩
  · rw [owners_marked]
    exact pools_handedOver v.pools
  · intro x hx
    rcases List.mem_append.1 hx with hx | hx
    · exact (v.sent x hx).keeps hk (mem_owners (List.mem_append_left _ hx))
    · obtain ⟨y, hy, rfl⟩ := List.mem_map.1 hx
      obtain ⟨ho, hyb, hshow, hin⟩ := hU y hy
      refine ⟨rfl, ?_, ?_, fun _ => ?_⟩
      · show y.1.pac.1 = (t.obs y.1.outBuf).buf
        rw [ho, (handedOver_obs ob).1, hyb]
      · show Shows ((t.bufs y.1.pac.1).data.from_ y.1.pac.2) y.2
        rw [hyb, ht, handedOver_bufs_self]
        exact hshow
      · show y.1.pac.2 + y.2.size ≤ (t.obs y.1.outBuf).offset
        rw [ho, hself]
        exact hin
  · -- nothing of the head buffer is left, and the others are as they were
    have hnil : t.Region ob (t.obs ob).offset [] (t.bufs (t.obs ob).buf).offset := by
      rw [hself, (handedOver_obs ob).1, ht, handedOver_bufs_self]
      exact .nil _
    have htq : t.queue = ob :: q := hq
    rw [htq]
    refine .cons hnil (hp.frame (fun c hc => ⟨(handedOver_obs c).1, ?_⟩) fun c hc => handedOver_bufs_of_ne fun he => ?_)
    · rw [ht, handedOver_offset, if_neg fun h : c = ob => hnot (h ▸ hc)]
    · have hcq : c ∈ s.queue := by
        rw [hq]
        exact List.mem_cons_of_mem _ hc
      exact hnot (v.pools.inj c ob (.inl hcq) (.inl hob) he ▸ hc)
  · show s.recentCount = _
    rw [v.recentCount]
    simp only [List.length_append, List.length_map, Nat.add_assoc]

end Before

/-- The loop passes over packets that are sent, and over those of later buffers. -/
theorem sendPackets_listed {t : Writer} (hS : ∀ x ∈ S, x.1.sent = true) (hU₂ : ∀ x ∈ U₂, x.1.outBuf ≠ ob)
    (h : sendPackets ob s (U₁.map Prod.fst) = some (t, (U₁.map mark).map Prod.fst)) :
    sendPackets ob s ((S ++ (U₁ ++ U₂)).map Prod.fst) = some (t, (S ++ U₁.map mark ++ U₂).map Prod.fst) := by
  rw [← List.append_assoc, List.map_append, List.map_append, sendPackets_append, sendPackets_append,
    sendPackets_skip ob s (S.map Prod.fst), Option.bind_some, h, Option.map_some, Option.bind_some, sendPackets_skip,
    Option.map_some, List.map_append, List.map_append]
  · rintro op hop ⟨ho, -⟩
    obtain ⟨x, hx, rfl⟩ := List.mem_map.1 hop
    exact hU₂ x hx ho
  · rintro op hop ⟨-, ho⟩
    obtain ⟨x, hx, rfl⟩ := List.mem_map.1 hop
    rw [hS x hx] at ho
    cases ho

end HandedOver

/-- **The unsent bytes of the head buffer** are its unsent packets. -/
theorem sendBuffer_valid (v : s.Valid S U) (hq : s.queue = ob :: q) : ∃ U₁ U₂ s' r, U = U₁ ++ U₂ ∧
    s.sendBuffer ob = some (s', r) ∧ s'.Valid (S ++ U₁.map mark) U₂ ∧ Keeps s s' (owners (S ++ U)) ∧
    SameUse s s' ∧ s'.queue = s.queue ∧ s'.bufCount = s.bufCount ∧
    (s'.obs ob).offset = (s'.bufs (s'.obs ob).buf).offset ∧
    (∃ ps : List WirePacket, ps.map WirePacket.incoming = U₁.map Prod.snd ∧
      (r.map Write.bytes).getD [] = ps.flatMap WirePacket.bytes ∧
      (ps.map fun p => some p.bytes) = (U₁.map fun x => sentBytes (s.mem x.1.pac) x.2)) ∧
    (∀ w, r = some w → w.outBuf = ob ∧ ob ∈ owners (S ++ U) ∧ s'.Flying (owners (S ++ U)) w) ∧
    (∀ x ∈ U₁, x.1.outBuf = ob) ∧ ∀ x ∈ U₂, x.1.outBuf ∈ q := by
  have hob : ob ∈ s.queue := by
    rw [hq]
    exact List.mem_cons_self
  have hnd := v.pools.nodup
  have hp := v.pending
  rw [hq] at hp hnd
  cases hp with
  | @cons _ _ U₁ U₂ hr hp =>
    have hle := hr.le
    have hown₂ : ∀ x ∈ U₂, x.1.outBuf ∈ q := fun x hx => (hp.owner x hx).1
    refine ⟨U₁, U₂, ?_⟩
    by_cases hlt : (s.obs ob).offset < (s.bufs (s.obs ob).buf).offset
    case neg =>
      have heq : (s.obs ob).offset = (s.bufs (s.obs ob).buf).offset := by omega
      have hnil : U₁ = [] := by
        rw [← heq] at hr
        exact hr.eq_nil
      subst hnil
      refine ⟨s, none, rfl, ?_, by simpa using v, .refl _ _, ⟨rfl, rfl, fun _ => rfl⟩, rfl, rfl, heq,
        ⟨[], rfl, rfl, rfl⟩, fun _ h => (by cases h), fun x hx => (by cases hx), hown₂⟩
      unfold sendBuffer
      rw [if_neg hlt]
    obtain ⟨d, ps, hsend, hd, hbytes, hview, hsent, hU⟩ := send_region (v.pools.full ob (.inl hob)) U₁ s _ rfl hr
    have hloop := sendPackets_listed (fun x hx => (v.sent x hx).sent)
      (fun x hx (he : x.1.outBuf = ob) => (List.nodup_cons.1 hnd).1 (he ▸ hown₂ x hx)) hsend
    set t := s.handedOver ob d ((S ++ U₁.map mark ++ U₂).map Prod.fst) with ht
    let w : Write := { outBuf := ob, data := ((s.obs ob).buf, (s.obs ob).offset),
                       bytes := d.slice (s.obs ob).offset ((s.bufs (s.obs ob).buf).offset - (s.obs ob).offset) }
    have hbuf : (s.setBuf (s.obs ob).buf ⟨(s.bufs (s.obs ob).buf).offset, d⟩).bufs (s.obs ob).buf =
        ⟨(s.bufs (s.obs ob).buf).offset, d⟩ := bufs_setBuf_self
    have hw : s.sendBuffer ob = some (t, some w) := by
      unfold sendBuffer
      dsimp only
      rw [if_pos hlt, v.recents, hloop, Option.map_some]
      simp only [hbuf, obs_setBuf]
      rfl
    have hself : (t.obs ob).offset = (s.bufs (s.obs ob).buf).offset := by rw [ht, handedOver_offset, if_pos rfl]
    have hU₁ : U₁ ≠ [] := by
      rintro rfl
      generalize (s.bufs (s.obs ob).buf).offset = n at hr hlt
      cases hr
      exact lt_irrefl _ hlt
    have hmem : ob ∈ owners (S ++ (U₁ ++ U₂)) := by
      obtain ⟨x, hx⟩ := List.exists_mem_of_ne_nil U₁ hU₁
      rw [← (hU x hx).1]
      exact mem_owners (List.mem_append_right _ (List.mem_append_left _ hx))
    have hbelow : ∀ k < (s.obs ob).offset, d k = (s.bufs (s.obs ob).buf).data k := fun k hk => hd k (.inl hk)
    refine ⟨t, some w, rfl, hw, valid_handedOver hle hbelow v hq hp hU, keeps_handedOver hle hbelow v.pools hob,
      ⟨rfl, rfl, fun c => (handedOver_obs c).1⟩, rfl, rfl, ?_, ⟨ps, hview, hbytes.symm, hsent⟩, fun w' hw' => ?_,
      fun x hx => (hr.owner x hx).1, hown₂⟩
    · rw [hself, (handedOver_obs ob).1, ht, handedOver_bufs_self]
    · cases hw'
      refine ⟨rfl, hmem, .inr hmem, (handedOver_obs ob).1.symm, ?_, fun _ => ?_⟩
      · show (t.bufs (s.obs ob).buf).data.slice _ w.bytes.length = _
        rw [ht, handedOver_bufs_self, Mem.length_slice]
      · show (s.obs ob).offset + w.bytes.length ≤ (t.obs ob).offset
        rw [hself, Mem.length_slice]
        omega

/-- The head buffer, with nothing left to send, leaves the queue or stays. -/
theorem popBuffer_valid (v : s.Valid S U) (hq : s.queue = ob :: q)
    (ho : (s.obs ob).offset = (s.bufs (s.obs ob).buf).offset) : (s.popBuffer ob).Valid S U ∧
      (∀ os, Keeps s (s.popBuffer ob) os) ∧ SameUse s (s.popBuffer ob) ∧
      ((s.popBuffer ob).queue = s.queue ∨ (s.popBuffer ob).queue = q ∧ 1 < s.bufCount) := by
  unfold popBuffer
  by_cases h : 1 < s.bufCount
  case neg =>
    rw [if_neg h]
    exact ⟨v, fun os => .refl s os, ⟨rfl, rfl, fun _ => rfl⟩, .inl rfl⟩
  rw [if_pos h]
  have hne : q ≠ [] := by
    rintro rfl
    rw [v.pools.bufCount, hq, List.length_singleton] at h
    omega
  set t : Writer := { s.setOb ob { s.obs ob with canRelease := true } with
    queue := s.queue.tail, bufCount := (s.bufCount + 65535) % 65536 } with ht
  have htq : t.queue = q := by
    simp only [ht, hq, List.tail_cons]
  have hobs : ∀ c, (t.obs c).buf = (s.obs c).buf ∧ (t.obs c).offset = (s.obs c).offset := fun c => by
    have : t.obs c = (s.setOb ob { s.obs ob with canRelease := true }).obs c := rfl
    rw [this, obs_setOb]
    split
    · subst c
      exact ⟨rfl, rfl⟩
    · exact ⟨rfl, rfl⟩
  have hk : ∀ os, Keeps s t os := by
    intro os
    constructor
    · exact fun c _ => (hobs c).1
    · exact fun c _ k _ => rfl
    · exact fun c _ => Nat.le_of_eq (hobs c).2.symm
    · intro c _ hc
      rw [htq] at hc
      rw [hq]
      exact List.mem_cons_of_mem _ hc
  refine ⟨⟨v.toGood.of_keeps (hk _) (fun _ hx => hx) (v.pools.pop ⟨q, hq, hne⟩) ?_, v.recents, v.recentCount⟩, hk,
    ⟨rfl, rfl, fun c => (hobs c).1⟩, .inr ⟨htq, h⟩⟩
  rw [htq]
  have hp := v.pending
  rw [hq] at hp
  cases hp with
  | cons hr hp =>
    rw [← ho] at hr
    rw [hr.eq_nil]
    exact hp.frame (fun c _ => hobs c) fun _ _ => rfl

/-- **`APB_WriteBuffer` hands over packets**, the ones that come next, and keeps what it handed over. -/
theorem writeBuffer_valid (v : s.Valid S U) : ∃ U₁ U₂ s' r, U = U₁ ++ U₂ ∧ s.writeBuffer = some (s', r) ∧
    s'.Valid (S ++ U₁.map mark) U₂ ∧ Keeps s s' (owners (S ++ U)) ∧
    (∃ ps : List WirePacket, ps.map WirePacket.incoming = U₁.map Prod.snd ∧
      (r.map Write.bytes).getD [] = ps.flatMap WirePacket.bytes ∧
      (ps.map fun p => some p.bytes) = (U₁.map fun x => sentBytes (s.mem x.1.pac) x.2)) ∧
    (∀ w, r = some w → w.outBuf ∈ owners (S ++ U) ∧ s'.Flying (owners (S ++ U)) w) ∧
    SameUse s s' ∧ (s'.queue = s.queue ∨ 1 < s.bufCount ∧ ∃ ob, s.queue = ob :: s'.queue) ∧
    (∀ x ∈ U₁, s.queue.head? = some x.1.outBuf) ∧ ∀ x ∈ U₂, x.1.outBuf ∈ s.queue.tail := by
  cases hq : s.queue with
  | nil =>
    have hp := v.pending
    rw [hq] at hp
    refine ⟨[], U, s, none, rfl, ?_, by simpa using v, .refl _ _, ⟨[], rfl, rfl, rfl⟩, ?_,
      ⟨rfl, rfl, fun _ => rfl⟩, .inl hq, fun x hx => (by cases hx),
      fun x hx => absurd (hp.owner x hx).1 List.not_mem_nil⟩
    case refine_2 => exact fun _ h => by cases h
    unfold writeBuffer
    rw [hq]
  | cons ob q =>
    obtain ⟨U₁, U₂, t, r, hU, hsend, vt, hk, hu, htq, htc, ho, hps, hfly, hhead, htail⟩ := sendBuffer_valid v hq
    rw [hq] at htq
    obtain ⟨v', hk', hu', hpop⟩ := popBuffer_valid vt htq ho
    have howners : owners (S ++ U₁.map mark ++ U₂) = owners (S ++ U) := by rw [hU, owners_marked]
    refine ⟨U₁, U₂, t.popBuffer ob, r, hU, ?_, v', ?_, hps, fun w hw => ?_, hu.trans hu', ?_,
      fun x hx => congrArg some (hhead x hx).symm, htail⟩
    · unfold writeBuffer
      rw [hq]
      dsimp only
      rw [hsend]
      rfl
    · apply hk.trans (hk' (owners (S ++ U)))
      intro c hc
      unfold Live
      rwa [htq, ← hq]
    · obtain ⟨hwo, hmem, hf⟩ := hfly w hw
      rw [← hwo] at hmem
      exact ⟨hmem, hf.keeps (hk' _) (.inr hmem)⟩
    · rcases hpop with h | ⟨h, hc⟩
      · exact .inl (h.trans htq)
      · rw [htc] at hc
        rw [h]
        exact .inr ⟨hc, ob, rfl⟩

end AmiPiBorg.Writer
