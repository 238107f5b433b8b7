import AmiPiBorg.Reader.Receive
import AmiPiBorg.Reader.Progress

/-!
# Bytes arrive

A completed read lengthens what the chain holds of the stream: the read buffer is the last of the chain and has room
left (`Laid.fill_on`), or it is new and is hung at the end of a chain of full buffers (`Laid.fill_off`). Either way the
parser stands where it stood, with more bytes before it (`progress_arrive`); what was queued is where it was.
-/

set_option autoImplicit false

namespace AmiPiBorg.Reader

open ProgLib

variable {s t : Reader} {al : Alloc} {S : Mem} {n P base : Nat} {b c : BufPtr} {bs : List UInt8} {l : List IbPtr}
  {a ib : IbPtr}

/-! ## The buffers -/

@[simp] theorem bufs_fill_self : (s.fill b bs).bufs b =
    { offset := (s.bufs b).offset + bs.length, data := (s.bufs b).data.store (s.bufs b).offset bs } :=
  Function.update_self ..

theorem bufs_fill_of_ne (h : c ≠ b) : (s.fill b bs).bufs c = s.bufs c := Function.update_of_ne h ..

@[simp] theorem bufs_allocateBuffer_self : (s.allocateBuffer b).bufs b = { s.bufs b with offset := 0 } :=
  Function.update_self ..

theorem bufs_allocateBuffer_of_ne (h : c ≠ b) : (s.allocateBuffer b).bufs c = s.bufs c := Function.update_of_ne h ..

theorem data_allocateBuffer : ((s.allocateBuffer b).bufs c).data = (s.bufs c).data := by
  by_cases h : c = b
  · subst h
    rw [bufs_allocateBuffer_self]
  · rw [bufs_allocateBuffer_of_ne h]

/-! ## The chain -/

/-- The read buffer is on the chain: it is the last one, and gets longer. -/
theorem Laid.fill_on (hS : S.Holds n bs) (hoff : (s.bufs b).offset = n % bufferSize) (hn : n % bufferSize ≠ 0)
    (hfit : n % bufferSize + bs.length ≤ bufferSize) : ∀ {l : List IbPtr} {base : Nat}, s.Laid S n base l →
      base % bufferSize = 0 → (l.map fun a => (s.ibs a).buf).Nodup → (∃ a ∈ l, (s.ibs a).buf = b) →
      (s.fill b bs).Laid S (n + bs.length) base l
  | [], _, _, _, _, h => by obtain ⟨a, ha, -⟩ := h; cases ha
  | a :: r, base, ⟨h₁, h₂, h₃, h₄⟩, hb, hnd, h => by
    by_cases ha : (s.ibs a).buf = b
    · -- the buffer has room, so it is the last
      have hbytes : s.bytes a = n % bufferSize := by rw [bytes, ha, hoff]
      have hlast : r = [] := by
        cases r with
        | nil => rfl
        | cons a' r =>
          have := h₄.1
          simp only [Filled, bufferSize] at *
          omega
      subst hlast
      have hnew : (s.fill b bs).bytes a = s.bytes a + bs.length := by
        show ((s.fill b bs).bufs (s.ibs a).buf).offset = _
        rw [ha, bufs_fill_self, bytes, ha]
      have hdata : (s.fill b bs).data a = (s.data a).store (s.bytes a) bs := by
        show ((s.fill b bs).bufs (s.ibs a).buf).data = _
        rw [ha, bufs_fill_self, bytes, data, ha]
      have h₅ := h₄.1
      refine ⟨by omega, ?_, fun i hi => ?_, ?_, ?_⟩
      · simp only [Filled, hnew, bufferSize] at *
        omega
      · rw [hnew] at hi
        rw [hdata]
        by_cases hlt : i < s.bytes a
        · rw [Mem.store_of_lt hlt]
          exact h₃ i hlt
        · have hs := Mem.store_at (s.data a) (s.bytes a) (show i - s.bytes a < bs.length by omega)
          rw [hS _ (by omega), Nat.add_sub_cancel' (by omega)] at hs
          rw [Option.some.inj hs]
          congr 1
          simp only [Filled, bufferSize] at *
          omega
      · simp only [Filled, bufferSize] at *
        omega
      · simp only [Filled, bufferSize] at *
        omega
    · obtain ⟨c, hc, hcb⟩ := h
      have hcr : c ∈ r := by
        rcases List.mem_cons.1 hc with rfl | hcr
        · exact absurd hcb ha
        · exact hcr
      have h₅ : base + bufferSize < n := by
        cases r with
        | nil => cases hcr
        | cons a' r => exact h₄.1
      have hbuf : (s.fill b bs).bufs (s.ibs a).buf = s.bufs (s.ibs a).buf := bufs_fill_of_ne ha
      have hbytes : (s.fill b bs).bytes a = s.bytes a := by
        show ((s.fill b bs).bufs (s.ibs a).buf).offset = _
        rw [hbuf]
        rfl
      have hdata : (s.fill b bs).data a = s.data a := by
        show ((s.fill b bs).bufs (s.ibs a).buf).data = _
        rw [hbuf]
        rfl
      refine ⟨by omega, ?_, fun i hi => ?_, Laid.fill_on hS hoff hn hfit h₄ ?_ (List.nodup_cons.1 hnd).2 ⟨c, hcr, hcb⟩⟩
      · simp only [Filled, hbytes] at *
        omega
      · rw [hbytes] at hi
        rw [hdata]
        exact h₃ i hi
      · simp only [bufferSize] at *
        omega

/-- The read buffer is new: the chain's buffers are full, and it goes behind them. -/
theorem Laid.fill_off (hS : S.Holds n bs) (hoff : (s.bufs b).offset = 0) (hn : n % bufferSize = 0) (hne : bs ≠ [])
    (hfit : bs.length ≤ bufferSize) (hbufs : t.bufs = (s.fill b bs).bufs) (hib : (t.ibs ib).buf = b) :
    ∀ {l : List IbPtr} {base : Nat}, s.Laid S n base l → base % bufferSize = 0 →
      (∀ a ∈ l, (t.ibs a).buf = (s.ibs a).buf) → (∀ a ∈ l, (s.ibs a).buf ≠ b) →
      t.Laid S (n + bs.length) base (l ++ [ib])
  | [], base, ⟨h₁, h₂⟩, hb, _, _ => by
    have hpos : 0 < bs.length := List.length_pos_of_ne_nil hne
    have hbytes : t.bytes ib = bs.length := by rw [bytes, hib, hbufs, bufs_fill_self, hoff, Nat.zero_add]
    have hdata : t.data ib = (s.bufs b).data.store 0 bs := by rw [data, hib, hbufs, bufs_fill_self, hoff]
    have hbase : base = n := by
      simp only [bufferSize] at *
      omega
    subst hbase
    refine ⟨by omega, ?_, fun i hi => ?_, ?_, ?_⟩
    · simp only [Filled, hbytes, bufferSize] at *
      omega
    · rw [hbytes] at hi
      have hs := Mem.store_at (s.bufs b).data 0 hi
      rw [hS i hi, Nat.zero_add] at hs
      rw [hdata, Option.some.inj hs]
    · simp only [bufferSize] at *
      omega
    · omega
  | a :: r, base, ⟨h₁, h₂, h₃, h₄⟩, hb, hsame, hoffl => by
    have hbuf : t.bufs (t.ibs a).buf = s.bufs (s.ibs a).buf := by
      rw [hbufs, hsame a List.mem_cons_self, bufs_fill_of_ne (hoffl a List.mem_cons_self)]
    have hbytes : t.bytes a = s.bytes a := by rw [bytes, hbuf, bytes]
    have hdata : t.data a = s.data a := by rw [data, hbuf, data]
    have hpos : 0 < bs.length := List.length_pos_of_ne_nil hne
    refine ⟨by omega, ?_, fun i hi => ?_, Laid.fill_off hS hoff hn hne hfit hbufs hib h₄ ?_
      (fun c hc => hsame c (List.mem_cons_of_mem a hc)) (fun c hc => hoffl c (List.mem_cons_of_mem a hc))⟩
    · simp only [Filled, hbytes, bufferSize] at *
      omega
    · rw [hbytes] at hi
      rw [hdata]
      exact h₃ i hi
    · simp only [bufferSize] at *
      omega

/-- A new read buffer is not on the chain. -/
theorem bytes_allocateBuffer (ho : s.Owned l) (hb : b ∉ s.bufUse) (ha : a ∈ l) :
    (s.allocateBuffer b).bytes a = s.bytes a ∧ (s.allocateBuffer b).data a = s.data a := by
  have hbuf : (s.allocateBuffer b).bufs (s.ibs a).buf = s.bufs (s.ibs a).buf :=
    bufs_allocateBuffer_of_ne fun he => hb (he ▸ ho.bufUse a ha)
  exact ⟨congrArg Buffer.offset hbuf, congrArg Buffer.data hbuf⟩

theorem Laid.allocateBuffer (ho : s.Owned l) (hb : b ∉ s.bufUse) : ∀ {l' : List IbPtr} {base : Nat},
    s.Laid S n base l' → (∀ a ∈ l', a ∈ l) → (s.allocateBuffer b).Laid S n base l'
  | [], _, h, _ => h
  | a :: r, base, ⟨h₁, h₂, h₃, h₄⟩, hsub => by
    obtain ⟨hbytes, hdata⟩ := bytes_allocateBuffer ho hb (hsub a List.mem_cons_self)
    refine ⟨h₁, ?_, ?_, Laid.allocateBuffer ho hb h₄ fun x hx => hsub x (List.mem_cons_of_mem a hx)⟩
    · simpa only [Filled, hbytes] using h₂
    · simpa only [hbytes, hdata] using h₃

theorem Window.allocateBuffer {p : Option IbPtr} (w : Window s S n p base l) (ho : s.Owned l) (hb : b ∉ s.bufUse) :
    Window (s.allocateBuffer b) S n p base l :=
  ⟨w.chain, w.laid.allocateBuffer ho hb fun _ h => h, w.aligned⟩

theorem View.allocateBuffer {p : Option IbPtr} (v : View s S n P p base l) (ho : s.Owned l) (hb : b ∉ s.bufUse) :
    View (s.allocateBuffer b) S n P p base l := by
  obtain ⟨h₁, h₂, h₃⟩ := v.window.allocateBuffer ho hb
  refine ⟨h₁, h₂, h₃, v.pos, fun a ha => ?_, v.tail⟩
  rw [(bytes_allocateBuffer ho hb (List.mem_of_mem_head? ha)).1]
  exact v.head_le a ha

theorem Owned.allocateBuffer (ho : s.Owned l) : (s.allocateBuffer b).Owned l :=
  ⟨ho.ibUse, fun a ha => List.mem_cons_of_mem b (ho.bufUse a ha), ho.nodup⟩

/-! ## What was queued -/

/-- The bytes of a stored range are not written by a read. -/
theorem Stored.slice_fill {data : Option Addr} {len : Nat} (h : s.Stored data len) :
    ((s.fill b bs).mem data).slice 0 len = (s.mem data).slice 0 len := by
  obtain ⟨rfl, rfl⟩ | ⟨c, off, rfl, -, hle⟩ := h
  · rfl
  · refine Mem.slice_congr fun i hi => ?_
    simp only [mem, Mem.from_]
    by_cases hc : c = b
    · subst hc
      rw [bufs_fill_self]
      exact Mem.store_of_lt (by omega)
    · rw [bufs_fill_of_ne hc]

theorem view_fill {ip : InPacket} (h : s.Stored ip.data1 ip.data1Length ∧ s.Stored ip.data2 ip.data2Length) :
    (s.fill b bs).view ip = s.view ip := by
  simp only [view, inPacketToBuffer, h.1.slice_fill, h.2.slice_fill]

theorem Stored.fill {data : Option Addr} {len : Nat} (h : s.Stored data len) : (s.fill b bs).Stored data len := by
  obtain h | ⟨c, off, rfl, hc, hle⟩ := h
  · exact .inl h
  · refine .inr ⟨c, off, rfl, hc, ?_⟩
    by_cases hcb : c = b
    · subst hcb
      rw [bufs_fill_self]
      exact hle.trans (Nat.le_add_right _ _)
    · rwa [bufs_fill_of_ne hcb]

theorem Stored.allocateBuffer {data : Option Addr} {len : Nat} (h : s.Stored data len) (hb : b ∉ s.bufUse) :
    (s.allocateBuffer b).Stored data len := by
  obtain h | ⟨c, off, rfl, hc, hle⟩ := h
  · exact .inl h
  · refine .inr ⟨c, off, rfl, List.mem_cons_of_mem b hc, ?_⟩
    have hne : c ≠ b := by
      rintro rfl
      exact hb hc
    rwa [bufs_allocateBuffer_of_ne hne]

theorem mem_allocateBuffer : (s.allocateBuffer b).mem = s.mem :=
  funext fun a => by cases a <;> simp only [mem, data_allocateBuffer]

/-! ## The parser -/

section View

variable {rb : BufPtr}

/-- The bytes go into the last buffer of the chain. -/
theorem Window.fill_on (w : Window s S n s.inBuf base l) (ho : s.Owned l) (ha : a ∈ l) (hab : (s.ibs a).buf = b)
    (hoff : (s.bufs b).offset = n % bufferSize) (h0 : n % bufferSize ≠ 0) (hS : S.Holds n bs)
    (hfit : n % bufferSize + bs.length ≤ bufferSize) : Window (s.fill b bs) S (n + bs.length) s.inBuf base l :=
  ⟨w.chain, w.laid.fill_on hS hoff h0 hfit w.aligned ho.nodup ⟨a, ha, hab⟩, w.aligned⟩

/-- The bytes go into a new buffer behind the chain. -/
theorem Window.fill_off (w : Window s S n s.inBuf base l) (hib : ib ∉ l) (hnew : ∀ a ∈ l, (s.ibs a).buf ≠ b)
    (hoff : (s.bufs b).offset = 0) (h0 : n % bufferSize = 0) (hS : S.Holds n bs) (hne : bs ≠ [])
    (hfit : bs.length ≤ bufferSize) : Window ((s.fill b bs).appended l ib b) S (n + bs.length)
      ((s.fill b bs).appended l ib b).inBuf base (l ++ [ib]) := by
  have hbuf : (((s.fill b bs).appended l ib b).ibs ib).buf = b := by rw [ibs_appended_new]
  have hsame : ∀ a ∈ l, (((s.fill b bs).appended l ib b).ibs a).buf = (s.ibs a).buf := fun a ha => by
    rw [ibs_appended_on hib ha]
    rfl
  have hbufs : ((s.fill b bs).appended l ib b).bufs = (s.fill b bs).bufs := rfl
  exact ⟨chain_appended w.chain hib, w.laid.fill_off hS hoff h0 hne hfit hbufs hbuf w.aligned hsame hnew, w.aligned⟩

/-- **A read** brings the bytes before the parser, which stands where it stood. -/
theorem view_arrive (v : View s S n P s.inBuf base l) (ho : s.Owned l)
    (hlast : 0 < n → ∃ a, l.getLast? = some a ∧ (s.ibs a).buf = rb) (hal : ∀ s, (al.inBuffer s).isSome)
    (hb : b ∈ s.bufUse) (hoff : (s.bufs b).offset = n % bufferSize) (hon : n % bufferSize ≠ 0 → b = rb)
    (hnew : n % bufferSize = 0 → ∀ a ∈ l, (s.ibs a).buf ≠ b) (hS : S.Holds n bs) (hne : bs ≠ [])
    (hfit : n % bufferSize + bs.length ≤ bufferSize) :
    ∃ t l', (∀ fuel, l.length < fuel → (s.fill b bs).appendBuffer fuel al b = some (t, true)) ∧
      t.bufs = (s.fill b bs).bufs ∧ t.bufUse = s.bufUse ∧ t.queue = s.queue ∧
      View t S (n + bs.length) P t.inBuf base l' ∧ t.Owned l' ∧ ∃ a, l'.getLast? = some a ∧ (t.ibs a).buf = b := by
  by_cases h0 : n % bufferSize = 0
  · -- a new buffer
    obtain ⟨ib, hib⟩ := Option.isSome_iff_exists.1 (hal (s.fill b bs))
    have hfresh : ib ∉ l := fun hm => al.inBuffer_fresh _ _ hib (ho.ibUse ib hm)
    have hsame : ∀ a ∈ l, (((s.fill b bs).appended l ib b).ibs a).buf = (s.ibs a).buf := fun a ha => by
      rw [ibs_appended_on hfresh ha]
      rfl
    have hoffset : ∀ a ∈ l, (((s.fill b bs).appended l ib b).ibs a).offset = (s.ibs a).offset := fun a ha => by
      rw [ibs_appended_on hfresh ha]
      rfl
    have hbuf : (((s.fill b bs).appended l ib b).ibs ib).buf = b := by rw [ibs_appended_new]
    have w := v.window.fill_off hfresh (hnew h0) (hoff.trans h0) h0 hS hne (by omega)
    have hold : ∀ a ∈ l, s.bytes a ≤ ((s.fill b bs).appended l ib b).bytes a := fun a ha => by
      show _ ≤ ((s.fill b bs).bufs (((s.fill b bs).appended l ib b).ibs a).buf).offset
      rw [hsame a ha, bufs_fill_of_ne (hnew h0 a ha)]
      exact Nat.le_refl _
    refine ⟨(s.fill b bs).appended l ib b, l ++ [ib], fun fuel hf => append_new v.chain hf (hnew h0) hib hfresh,
      rfl, rfl, rfl, ⟨w.chain, w.laid, w.aligned, ?_, ?_, ?_⟩, ⟨?_, ?_, ?_⟩, ib, by simp, hbuf⟩
    · cases l with
      | nil =>
        rw [v.pos]
        simp only [headOffset, List.nil_append, ibs_appended_new]
      | cons a r => rw [v.pos, List.cons_append, headOffset, headOffset, hoffset a List.mem_cons_self]
    · intro a ha
      cases l with
      | nil =>
        cases ha
        rw [ibs_appended_new]
        exact Nat.zero_le _
      | cons c r =>
        cases ha
        rw [hoffset _ List.mem_cons_self]
        exact (v.head_le _ rfl).trans (hold _ List.mem_cons_self)
    · intro a ha
      cases l with
      | nil => cases ha
      | cons c r =>
        rw [List.cons_append, List.tail_cons, List.mem_append, List.mem_singleton] at ha
        rcases ha with ha | rfl
        · rw [hoffset a (List.mem_cons_of_mem c ha)]
          exact v.tail a ha
        · rw [ibs_appended_new]
    · intro a ha
      rw [List.mem_append, List.mem_singleton] at ha
      rcases ha with ha | rfl
      · exact List.mem_cons_of_mem _ (ho.ibUse a ha)
      · exact List.mem_cons_self
    · intro a ha
      rw [List.mem_append, List.mem_singleton] at ha
      rcases ha with ha | rfl
      · rw [hsame a ha]
        exact ho.bufUse a ha
      · rw [hbuf]
        exact hb
    · rw [List.map_append, List.map_congr_left hsame, List.map_singleton, hbuf, List.nodup_append]
      refine ⟨ho.nodup, List.nodup_singleton _, ?_⟩
      rintro x hx y hy rfl
      obtain ⟨a, ha, rfl⟩ := List.mem_map.1 hx
      exact hnew h0 a ha (List.mem_singleton.1 hy)
  · -- the last buffer of the chain
    obtain ⟨c, hc, hcb⟩ := hlast (Nat.pos_of_ne_zero fun hz => h0 (by rw [hz, Nat.zero_mod]))
    have hmem : c ∈ l := List.mem_of_getLast? hc
    rw [← hon h0] at hcb
    have w := v.window.fill_on ho hmem hcb hoff h0 hS hfit
    have hold : ∀ a, s.bytes a ≤ (s.fill b bs).bytes a := fun a => by
      show _ ≤ ((s.fill b bs).bufs (s.ibs a).buf).offset
      by_cases h : (s.ibs a).buf = b
      · rw [h, bufs_fill_self, bytes, h]
        exact Nat.le_add_right _ _
      · rw [bufs_fill_of_ne h]
        exact Nat.le_refl _
    exact ⟨s.fill b bs, l, fun fuel hf => append_old v.chain hf ⟨c, hmem, hcb⟩, rfl, rfl, rfl,
      ⟨w.chain, w.laid, w.aligned, v.pos, fun a ha => (v.head_le a ha).trans (hold a), v.tail⟩,
      ⟨ho.ibUse, ho.bufUse, ho.nodup⟩, c, hc, hcb⟩

end View

section Progress

variable {all : List Segment} {held : List InPacket} {rb : BufPtr} {segs : List Segment}

/-- Progress depends on the views of the packets, not on where their bytes are. -/
theorem Progress.transfer {n' : Nat} {l' : List IbPtr} {held' : List InPacket}
    (pr : Progress all held S rb n s s.inBuf P segs base l) (v : View t S n' P t.inBuf base l') (ho : t.Owned l')
    (hlast : 0 < n' → ∃ a, l'.getLast? = some a ∧ (t.ibs a).buf = b) (hn : n' ≤ (streamOf all).length)
    (hq : held' ++ t.queue = held ++ s.queue)
    (hst : ∀ ip ∈ held ++ s.queue, t.Stored ip.data1 ip.data1Length ∧ t.Stored ip.data2 ip.data2Length)
    (hview : ∀ ip ∈ held ++ s.queue, t.view ip = s.view ip) :
    Progress all held' S b n' t t.inBuf P segs base l' where
  parsing := ⟨v, .inl rfl⟩
  owned := ho
  last := hlast
  even := pr.even
  ahead := pr.ahead
  total := pr.total
  within := hn
  quiet := pr.quiet
  clear := pr.clear
  stored := hq ▸ hst
  queued := fun m hm => by rw [hq, List.map_congr_left hview, pr.queued m hm]

/-- A read keeps what was queued. -/
theorem progress_arrive (pr : Progress all held S rb n s s.inBuf P segs base l) (hal : ∀ s, (al.inBuffer s).isSome)
    (hb : b ∈ s.bufUse) (hoff : (s.bufs b).offset = n % bufferSize) (hon : n % bufferSize ≠ 0 → b = rb)
    (hnew : n % bufferSize = 0 → ∀ a ∈ l, (s.ibs a).buf ≠ b) (hS : S.Holds n bs) (hne : bs ≠ [])
    (hfit : n % bufferSize + bs.length ≤ bufferSize) (hn : n + bs.length ≤ (streamOf all).length) :
    ∃ t l', (∀ fuel, l.length < fuel → (s.fill b bs).appendBuffer fuel al b = some (t, true)) ∧
      t.bufs = (s.fill b bs).bufs ∧ Progress all held S b (n + bs.length) t t.inBuf P segs base l' := by
  obtain ⟨t, l', happ, hbufs, huse, hq, v, ho, hl⟩ :=
    view_arrive pr.parsing.1 pr.owned pr.last hal hb hoff hon hnew hS hne hfit
  have hst : ∀ {data : Option Addr} {len : Nat}, (s.fill b bs).Stored data len → t.Stored data len := fun h => by
    rw [Stored, hbufs, huse]
    exact h
  have hmem : t.mem = (s.fill b bs).mem := funext fun a => by cases a <;> simp only [mem, hbufs]
  refine ⟨t, l', happ, hbufs, pr.transfer v ho (fun _ => hl) hn (by rw [hq])
    (fun ip hip => ⟨hst (pr.stored ip hip).1.fill, hst (pr.stored ip hip).2.fill⟩) fun ip hip => ?_⟩
  rw [view_congr hmem]
  exact view_fill (pr.stored ip hip)

end Progress

end AmiPiBorg.Reader
