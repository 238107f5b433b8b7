import AmiPiBorg.Writer.Pools

/-!
# The writer's packets

The listed packets are `S ++ U`: those that are sent, and those that are not. `Good s S U` says that the unsent ones
fill, buffer by buffer in the order of the queue, the bytes between `ob_Offset` and `b_Offset` (`Pending`, `Region`), and
that the sent ones still lie where they were, before `ob_Offset` as long as their buffer is queued (`Sent`).

`Keeps s s' os` says that an operation leaves alone what live buffers hold before `ob_Offset`; it carries the sent
packets (`Sent.keeps`), and whatever else was put there, from one state to the next.
-/

set_option autoImplicit false

namespace AmiPiBorg.Writer

open ProgLib

/-- A listed packet, with what it shows. -/
abbrev Listed := OutPacket × Incoming

/-- The buffers that the packets lie in. -/
def owners (R : List Listed) : List ObPtr := R.map fun x => x.1.outBuf

/-- A packet that is sent. -/
structure Sent (s : Writer) (x : Listed) : Prop where
  sent : x.1.sent = true
  buf : x.1.pac.1 = (s.obs x.1.outBuf).buf
  shows : Shows (s.mem x.1.pac) x.2
  below : x.1.outBuf ∈ s.queue → x.1.pac.2 + x.2.size ≤ (s.obs x.1.outBuf).offset

/-- The packets lie end to end in the buffer of `ob`, from `i` up to `j`. They are not sent and have no checksum. -/
inductive Region (s : Writer) (ob : ObPtr) : Nat → List Listed → Nat → Prop
  | nil (i : Nat) : Region s ob i [] i
  | cons {i j : Nat} {a : Incoming} {U : List Listed} : Shows (s.mem ((s.obs ob).buf, i)) a →
      (s.mem ((s.obs ob).buf, i)).word 10 = 0 → Region s ob (i + a.size) U j →
      Region s ob i ((⟨ob, ((s.obs ob).buf, i), false⟩, a) :: U) j

/-- The packets are what the buffers have to send, one buffer after the other. -/
inductive Pending (s : Writer) : List ObPtr → List Listed → Prop
  | nil : Pending s [] []
  | cons {ob : ObPtr} {q : List ObPtr} {U V : List Listed} :
      Region s ob (s.obs ob).offset U (s.bufs (s.obs ob).buf).offset → Pending s q V → Pending s (ob :: q) (U ++ V)

/-- **The invariant of the writer.** -/
structure Good (s : Writer) (S U : List Listed) : Prop where
  pools : s.Pools (owners (S ++ U))
  sent : ∀ x ∈ S, s.Sent x
  pending : s.Pending s.queue U

/-- What live buffers hold before `ob_Offset` stays as it is. -/
structure Keeps (s s' : Writer) (os : List ObPtr) : Prop where
  buf : ∀ ob, s.Live os ob → (s'.obs ob).buf = (s.obs ob).buf
  data : ∀ ob, s.Live os ob → ∀ k, (ob ∈ s.queue → k < (s.obs ob).offset) →
    (s'.bufs (s.obs ob).buf).data k = (s.bufs (s.obs ob).buf).data k
  offset : ∀ ob, s.Live os ob → (s.obs ob).offset ≤ (s'.obs ob).offset
  queue : ∀ ob, s.Live os ob → ob ∈ s'.queue → ob ∈ s.queue

variable {s s' t : Writer} {os os' : List ObPtr} {ob : ObPtr} {i j : Nat} {a : Incoming} {x : Listed}
  {S U V : List Listed} {q : List ObPtr}

theorem owners_append (S U : List Listed) : owners (S ++ U) = owners S ++ owners U := List.map_append

theorem mem_owners (hx : x ∈ U) : x.1.outBuf ∈ owners U := List.mem_map_of_mem hx

/-! ## What is kept -/

namespace Keeps

theorem refl (s : Writer) (os : List ObPtr) : Keeps s s os :=
  ⟨fun _ _ => rfl, fun _ _ _ _ => rfl, fun _ _ => Nat.le_refl _, fun _ _ h => h⟩

theorem of_eq (hobs : s'.obs = s.obs) (hbufs : s'.bufs = s.bufs) (hq : s'.queue = s.queue) : Keeps s s' os :=
  ⟨fun _ _ => by rw [hobs], fun _ _ _ _ => by rw [hbufs], fun _ _ => by rw [hobs], fun _ _ h => by rwa [← hq]⟩

theorem trans (h : Keeps s s' os) (h' : Keeps s' t os') (hl : ∀ ob, s.Live os ob → s'.Live os' ob) : Keeps s t os := by
  constructor
  · intro ob hob
    rw [h'.buf ob (hl ob hob), h.buf ob hob]
  · intro ob hob k hk
    have h₁ := h'.data ob (hl ob hob) k fun hq =>
      Nat.lt_of_lt_of_le (hk (h.queue ob hob hq)) (h.offset ob hob)
    rw [h.buf ob hob] at h₁
    rw [h₁, h.data ob hob k hk]
  · exact fun ob hob => Nat.le_trans (h.offset ob hob) (h'.offset ob (hl ob hob))
  · exact fun ob hob hq => h.queue ob hob (h'.queue ob (hl ob hob) hq)

/-- A range of a live buffer is kept, as long as it lies before `ob_Offset` while the buffer is queued. -/
theorem range (h : Keeps s s' os) (hob : s.Live os ob) {n : Nat} (hn : ob ∈ s.queue → n ≤ (s.obs ob).offset) :
    (∀ k < n, (s'.bufs (s.obs ob).buf).data k = (s.bufs (s.obs ob).buf).data k) ∧
      (ob ∈ s'.queue → n ≤ (s'.obs ob).offset) :=
  ⟨fun k hk => h.data ob hob k fun hq => Nat.lt_of_lt_of_le hk (hn hq),
    fun hq => Nat.le_trans (hn (h.queue ob hob hq)) (h.offset ob hob)⟩

/-- An operation on the packets of one queued buffer. -/
theorem of_update (k : s.Pools os) (hob : ob ∈ s.queue) (hq : s'.queue = s.queue)
    (hobs : ∀ c, (s'.obs c).buf = (s.obs c).buf ∧ (s.obs c).offset ≤ (s'.obs c).offset)
    (hbufs : ∀ b ≠ (s.obs ob).buf, s'.bufs b = s.bufs b)
    (hd : ∀ k < (s.obs ob).offset, (s'.bufs (s.obs ob).buf).data k = (s.bufs (s.obs ob).buf).data k) :
    Keeps s s' os := by
  constructor
  · exact fun c _ => (hobs c).1
  · intro c hc i hi
    by_cases h : c = ob
    · subst c
      exact hd i (hi hob)
    · rw [hbufs _ fun he => h (k.inj c ob hc (.inl hob) he)]
  · exact fun c _ => (hobs c).2
  · intro c _ hc
    rw [← hq]
    exact hc

end Keeps

/-- **Sent packets are kept.** -/
theorem Sent.keeps (hx : s.Sent x) (h : Keeps s s' os) (ho : x.1.outBuf ∈ os) : s'.Sent x := by
  obtain ⟨hd, hb⟩ := h.range (.inr ho) hx.below
  refine ⟨hx.sent, hx.buf.trans (h.buf _ (.inr ho)).symm, ?_, hb⟩
  apply hx.shows.congr
  intro i hi _ _
  have := hd (x.1.pac.2 + i) (by omega)
  unfold mem
  rw [hx.buf]
  exact this

/-! ## Regions -/

namespace Region

theorem le (h : s.Region ob i U j) : i ≤ j := by
  induction h with
  | nil => exact Nat.le_refl _
  | cons _ _ _ ih => exact Nat.le_trans (Nat.le_add_right ..) ih

/-- Nothing to send. -/
theorem eq_nil (h : s.Region ob i U i) : U = [] := by
  cases h with
  | nil => rfl
  | @cons _ _ a _ _ _ h =>
    have h₁ := h.le
    have h₂ := Shows.sizeofPacket_le a
    simp only [sizeofPacket] at h₂
    omega

theorem owner (h : s.Region ob i U j) : ∀ x ∈ U, x.1.outBuf = ob ∧ x.1.sent = false := by
  induction h with
  | nil => exact fun x hx => by cases hx
  | cons _ _ _ ih =>
    intro x hx
    rcases List.mem_cons.1 hx with rfl | hx
    · exact ⟨rfl, rfl⟩
    · exact ih x hx

theorem inside (h : s.Region ob i U j) : ∀ x ∈ U, x.1.pac.1 = (s.obs x.1.outBuf).buf ∧ x.1.pac.2 + x.2.size ≤ j := by
  induction h with
  | nil => exact fun x hx => by cases hx
  | cons _ _ hr ih =>
    intro x hx
    rcases List.mem_cons.1 hx with rfl | hx
    · exact ⟨rfl, hr.le⟩
    · exact ih x hx

/-- The packets lie behind the start of the region. -/
theorem behind (h : s.Region ob i U j) : ∀ x ∈ U, i ≤ x.1.pac.2 := by
  induction h with
  | nil => exact fun x hx => by cases hx
  | cons _ _ _ ih =>
    intro x hx
    rcases List.mem_cons.1 hx with rfl | hx
    · exact Nat.le_refl _
    · exact Nat.le_trans (Nat.le_add_right ..) (ih x hx)

theorem shows (h : s.Region ob i U j) : ∀ x ∈ U, Shows (s.mem x.1.pac) x.2 := by
  induction h with
  | nil => exact fun x hx => by cases hx
  | cons hs _ _ ih =>
    intro x hx
    rcases List.mem_cons.1 hx with rfl | hx
    · exact hs
    · exact ih x hx

theorem frame (h : s.Region ob i U j) (hb : (s'.obs ob).buf = (s.obs ob).buf)
    (hd : ∀ k, i ≤ k → k < j → (s'.bufs (s.obs ob).buf).data k = (s.bufs (s.obs ob).buf).data k) :
    s'.Region ob i U j := by
  induction h with
  | nil => exact .nil _
  | @cons i j a U hs h10 hr ih =>
    have hle := hr.le
    have h14 := Shows.sizeofPacket_le a
    have hm : ∀ k < a.size, s'.mem ((s'.obs ob).buf, i) k = s.mem ((s.obs ob).buf, i) k := fun k hk => by
      rw [hb]
      exact hd (i + k) (by omega) (by omega)
    simp only [sizeofPacket] at h14
    rw [← hb]
    apply Region.cons
    · exact hs.congr fun k hk _ _ => hm k hk
    · rw [← h10]
      exact Mem.word_congr (hm 10 (by omega)) (hm 11 (by omega))
    · exact ih fun k hk hj => hd k (by omega) hj

theorem snoc (h : s.Region ob i U j) (hs : Shows (s.mem ((s.obs ob).buf, j)) a)
    (h10 : (s.mem ((s.obs ob).buf, j)).word 10 = 0) :
    s.Region ob i (U ++ [(⟨ob, ((s.obs ob).buf, j), false⟩, a)]) (j + a.size) := by
  induction h with
  | nil => exact .cons hs h10 (.nil _)
  | cons hs' h10' _ ih => exact .cons hs' h10' (ih hs h10)

end Region

namespace Pending

theorem owner (h : s.Pending q U) : ∀ x ∈ U, x.1.outBuf ∈ q ∧ x.1.sent = false := by
  induction h with
  | nil => exact fun x hx => by cases hx
  | cons hr _ ih =>
    intro x hx
    rcases List.mem_append.1 hx with hx | hx
    · rw [(hr.owner x hx).1, (hr.owner x hx).2]
      exact ⟨List.mem_cons_self, rfl⟩
    · exact ⟨List.mem_cons_of_mem _ (ih x hx).1, (ih x hx).2⟩

/-- A packet that is not sent lies in the part of its buffer that is filled. -/
theorem inside (h : s.Pending q U) : ∀ x ∈ U, x.1.pac.1 = (s.obs x.1.outBuf).buf ∧
    x.1.pac.2 + x.2.size ≤ (s.bufs (s.obs x.1.outBuf).buf).offset := by
  induction h with
  | nil => exact fun x hx => by cases hx
  | cons hr _ ih =>
    intro x hx
    rcases List.mem_append.1 hx with hx | hx
    · obtain ⟨hb, hle⟩ := hr.inside x hx
      rw [(hr.owner x hx).1] at hb ⊢
      exact ⟨hb, hle⟩
    · exact ih x hx

theorem shows (h : s.Pending q U) : ∀ x ∈ U, Shows (s.mem x.1.pac) x.2 := by
  induction h with
  | nil => exact fun x hx => by cases hx
  | cons hr _ ih =>
    intro x hx
    rcases List.mem_append.1 hx with hx | hx
    · exact hr.shows x hx
    · exact ih x hx

theorem offset_le (h : s.Pending q U) : ∀ ob ∈ q, (s.obs ob).offset ≤ (s.bufs (s.obs ob).buf).offset := by
  induction h with
  | nil => exact fun ob hob => by cases hob
  | cons hr _ ih =>
    intro c hc
    rcases List.mem_cons.1 hc with rfl | hc
    · exact hr.le
    · exact ih c hc

theorem frame (h : s.Pending q U) (hobs : ∀ ob ∈ q, (s'.obs ob).buf = (s.obs ob).buf ∧
      (s'.obs ob).offset = (s.obs ob).offset)
    (hd : ∀ ob ∈ q, s'.bufs (s.obs ob).buf = s.bufs (s.obs ob).buf) : s'.Pending q U := by
  induction h with
  | nil => exact .nil
  | @cons ob q U V hr _ ih =>
    obtain ⟨hb, ho⟩ := hobs ob List.mem_cons_self
    have hd' := hd ob List.mem_cons_self
    apply Pending.cons
    · rw [hb, ho, hd']
      exact hr.frame hb fun k _ _ => by rw [hd']
    · exact ih (fun c hc => hobs c (List.mem_cons_of_mem _ hc)) fun c hc => hd c (List.mem_cons_of_mem _ hc)

/-- An empty buffer more. -/
theorem snoc_nil (h : s.Pending q U) (ho : (s.obs ob).offset = (s.bufs (s.obs ob).buf).offset) :
    s.Pending (q ++ [ob]) U := by
  induction h with
  | nil =>
    have hr : s.Region ob (s.obs ob).offset [] (s.bufs (s.obs ob).buf).offset := by
      rw [ho]
      exact .nil _
    exact .cons hr .nil
  | cons hr _ ih => exact .cons hr ih

/-- A packet more in the last buffer. -/
theorem snoc (h : s.Pending (q ++ [ob]) U) (hnd : ob ∉ q)
    (hobs : ∀ c, (s'.obs c).buf = (s.obs c).buf ∧ (s'.obs c).offset = (s.obs c).offset)
    (hd : ∀ c ∈ q, s'.bufs (s.obs c).buf = s.bufs (s.obs c).buf)
    (hr : ∀ U, s.Region ob (s.obs ob).offset U (s.bufs (s.obs ob).buf).offset →
      s'.Region ob (s'.obs ob).offset (U ++ [x]) (s'.bufs (s'.obs ob).buf).offset) : s'.Pending (q ++ [ob]) (U ++ [x]) := by
  induction q generalizing U with
  | nil =>
    cases h with
    | @cons _ _ U V hr' hp =>
      cases hp with
      | nil =>
        rw [List.append_nil]
        have := Pending.cons (hr U hr') (.nil (s := s'))
        rwa [List.append_nil] at this
  | cons c q ih =>
    cases h with
    | @cons _ _ U V hr' hp =>
      have hd' := hd c List.mem_cons_self
      rw [List.append_assoc]
      apply Pending.cons
      · rw [(hobs c).1, (hobs c).2, hd']
        exact hr'.frame (hobs c).1 fun k _ _ => by rw [hd']
      · exact ih hp (fun hc => hnd (List.mem_cons_of_mem _ hc)) fun e he => hd e (List.mem_cons_of_mem _ he)

end Pending

/-- The invariant does not look at the list of recent packets. -/
theorem Good.congr (g : s.Good S U) (hq : s'.queue = s.queue) (hb : s'.bufCount = s.bufCount)
    (ho : s'.outBuf = s.outBuf) (hu : s'.obUse = s.obUse) (hv : s'.bufUse = s.bufUse) (hobs : s'.obs = s.obs)
    (hbufs : s'.bufs = s.bufs) : s'.Good S U := by
  constructor
  · exact g.pools.congr hq hb ho hu hv (fun _ => by rw [hobs]; exact ⟨rfl, rfl, rfl⟩) fun _ => by rw [hbufs]
  · exact fun x hx => (g.sent x hx).keeps (.of_eq hobs hbufs hq) (mem_owners (List.mem_append_left U hx))
  · rw [hq]
    exact g.pending.frame (fun _ _ => by rw [hobs]; exact ⟨rfl, rfl⟩) fun _ _ => by rw [hbufs]

theorem Good.shows (g : s.Good S U) : ∀ x ∈ S ++ U, Shows (s.mem x.1.pac) x.2 := by
  intro x hx
  rcases List.mem_append.1 hx with hx | hx
  · exact (g.sent x hx).shows
  · exact g.pending.shows x hx

end AmiPiBorg.Writer
