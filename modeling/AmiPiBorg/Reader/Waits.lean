import AmiPiBorg.Reader.Ends
import AmiPiBorg.Reader.Resync
import AmiPiBorg.Reader.Spans

/-!
# Waiting at a header

`APB_ProcessBuffer` looks into two buffers at most, but takes a header for good whose data ends in a third. At a header
that it has taken for good it goes on, once all of its packet has been received, exactly if the packet ends within two
buffers (`reader_waits_iff`); at any other it waits for ever, as in `full_header_waits`.
-/

set_option autoImplicit false

namespace AmiPiBorg

open ProgLib

namespace Reader

/-- The parser has a header before it that passes the checks on its id and its length. -/
structure AtHeader (t : Reader × Option IbPtr) (a : IbPtr) (h : Header) : Prop where
  here : t.2 = some a
  le : (t.1.ibs a).offset ≤ t.1.bytes a
  read : t.1.readHeader a = some h
  id : h.hdr.id = packetId
  length_le : h.hdr.length.toNat ≤ bufferSize

/-- The offset of `a` stands at position `P` of the `n` bytes that have been received: these are in its buffer and in
those behind it, up to the last one. -/
def Stands (s : Reader) (n : Nat) (a : IbPtr) (P : Nat) : Prop :=
  ∃ l, Chain s.next (some a) l ∧ P + (l.map s.bytes).sum = n + (s.ibs a).offset

variable {s : Reader} {al : Alloc} {S : Mem} {n P base : Nat} {a : IbPtr} {l : List IbPtr} {h : Header}
  {t : Reader × Option IbPtr}

/-- At a header that passes, the call stops if it does not find the data. -/
theorem AtHeader.wait (hh : AtHeader t a h) (hw : t.1.locate a h = none) : turn al t = some (.done t.1) := by
  obtain ⟨s, p⟩ := t
  obtain ⟨rfl, hle, hr, hid, hlen⟩ := hh
  simp only at hw hle hr
  simp only [turn, hr, hw]
  rw [if_neg (Nat.not_lt.2 hle), if_neg]
  rintro (h | h)
  · exact h hid
  · omega

/-- The bytes of a chain are all that has been received from its start on. -/
theorem Laid.sum : ∀ {l : List IbPtr} {a : IbPtr} {base : Nat}, s.Laid S n base (a :: l) →
    base + ((a :: l).map s.bytes).sum = n
  | [], a, base, ⟨h₁, h₂, _, h₃⟩ => by
    have := h₃.1
    simp only [Filled, List.map_cons, List.map_nil, List.sum_cons, List.sum_nil] at *
    omega
  | b :: l, a, base, ⟨h₁, h₂, _, h₃⟩ => by
    have h₄ := h₃.1
    have ih := Laid.sum h₃
    rw [List.map_cons, List.sum_cons]
    simp only [Filled] at h₂
    omega

/-- The parser is at a header that has arrived. -/
theorem atHeader_of_view (v : View s S n P (some a) base (a :: l)) (hn : P + sizeofPacket ≤ n) {q : Packet}
    (hS : S.Holds P q.bytes) (hid : q.id = packetId) (hlen : q.length.toNat ≤ bufferSize) :
    ∃ h, AtHeader (s, some a) a h ∧ h.hdr = q := by
  obtain ⟨h, hr, hp⟩ := readHeader_read v hn
  have hh : h.hdr = q := Packet.load_of_bytes fun i hi => by rw [hp i hi, hS i hi]
  exact ⟨h, ⟨rfl, v.offset_le, hr, hh ▸ hid, hh ▸ hlen⟩, hh⟩

theorem Window.stands (w : Window s S n (some a) base (a :: l)) : s.Stands n a (base + (s.ibs a).offset) := by
  refine ⟨a :: l, w.chain, ?_⟩
  have := w.laid.sum
  omega

end Reader

namespace Rx

open Reader

/-- **The reader waits at a header** whose packet has been received completely exactly if the packet does not end within
two buffers: on any bytes, in every state that a run of safe releases reaches. -/
theorem reader_waits_iff (al₀ : Alloc) (ibs : IbPtr → InBuffer) (bufs : BufPtr → Buffer) (es : List Event) (fuel : Nat)
    (x : Rx) (hok : Along FedStep (step fuel) (start al₀ ibs bufs) es)
    (hx : runs (step fuel) (start al₀ ibs bufs) es = some x) (al : Alloc) (hal : ∀ s, (al.inBuffer s).isSome)
    (b : BufPtr) (hb : x.readBuffer = some b) (bs : List UInt8) (hne : bs ≠ [])
    (hfit : (x.rd.bufs b).offset + bs.length ≤ bufferSize) (t : Reader × Option IbPtr)
    (ht : (x.rd.fill b bs).ComesTo al b t) (a : IbPtr) (h : Header) (hh : AtHeader t a h) : ∃ P,
      t.1.Stands (received es ++ bs).length a P ∧
        (∀ i < sizeofPacket, h.p i = Mem.ofList (received es ++ bs) (P + i)) ∧
        (P + h.size ≤ (received es ++ bs).length →
          ((t.1.locate a h).isSome ↔ (t.1.ibs a).offset + h.size ≤ 2 * bufferSize)) := by
  have hS := Mem.holds_ofList (received es ++ bs)
  generalize Mem.ofList (received es ++ bs) = S at *
  rw [Mem.holds_append, Nat.zero_add] at hS
  obtain ⟨⟨⟨L', k, hc'⟩, -⟩, base, L, e, R, hc, hroom⟩ := tracked hS.1 hok hx
  obtain rfl := hc.unique hc'
  rw [hb] at R k
  obtain ⟨r, L₁, happ, -, R₁, -⟩ := reading_arrive k hc R (hroom b hb) hal hS.2 hne hfit
  obtain ⟨fuel', r', hr', hreach⟩ := ht
  have heq := (appendBuffer_mono hr' (le_max_left fuel' (L.length + 1))).symm.trans
    (happ _ (le_max_right fuel' (L.length + 1)))
  obtain rfl : r' = r := congrArg Prod.fst (Option.some.inj heq)
  obtain ⟨base', L₂, e', R₂⟩ := reading_reach R₁ hreach
  obtain ⟨base₂, l, -, w, -⟩ := R₂.ahead.at R₂.stands
  rw [hh.here] at w
  obtain ⟨l, rfl, -⟩ := w.chain.of_some
  rw [List.length_append]
  refine ⟨base₂ + (t.1.ibs a).offset, w.stands, header_bytes w hh.le hh.read, fun hn => ?_⟩
  rw [locate_isSome_iff w hh.le hh.read]
  exact ⟨And.right, fun h => ⟨hn, h⟩⟩

/-- At the first packet of the first read. -/
theorem reader_waits_iff_first : ∃ (t : Reader × Option IbPtr) (h : Header) (P : Nat),
    (fresh.rd.fill 1 shortPacket.bytes).ComesTo .unbounded 1 t ∧ AtHeader t 1 h ∧
      t.1.Stands 14 1 P ∧
        (P + h.size ≤ 14 → ((t.1.locate 1 h).isSome ↔ (t.1.ibs 1).offset + h.size ≤ 2 * bufferSize)) := by
  have hlen : shortPacket.bytes.length = 14 := by rw [WirePacket.length_bytes, size_shortPacket]
  let s := fresh.rd.fill 1 shortPacket.bytes
  let t := s.appended [] 1 1
  have hcomes : s.ComesTo .unbounded 1 (t, some 1) :=
    ⟨1, t, append_new rfl Nat.one_pos (fun a ha => (by cases ha)) rfl (fun ha => (by cases ha)), .refl⟩
  let h : Header := ⟨(t.data 1).from_ 0, 14, none, 14⟩
  have hbytes : t.bytes 1 = 14 := hlen
  have hoff : (t.ibs 1).offset = 0 := rfl
  have hread : t.readHeader 1 = some h := by
    simp only [readHeader, hbytes, hoff]
    rfl
  have hat : AtHeader (t, some 1) 1 h := ⟨rfl, Nat.zero_le _, hread, by decide +kernel, by decide +kernel⟩
  obtain ⟨P, hP, -, hiff⟩ := reader_waits_iff .unbounded (fun _ => default) (fun _ => default) [] 0 fresh trivial rfl
    .unbounded (fun _ => rfl) 1 rfl shortPacket.bytes (List.ne_nil_of_length_pos (by omega))
    (by rw [hlen]; decide) (t, some 1) hcomes 1 h hat
  rw [show (received [] ++ shortPacket.bytes).length = 14 from hlen] at hP hiff
  exact ⟨(t, some 1), h, P, hcomes, hat, hP, hiff⟩

/-! ## A header that is never passed -/

/-- A header that announces as much as a buffer holds. -/
def fullHeader : Packet :=
  { id := packetId, type := 1, flags := 0, connId := 1, packId := 2, checksum := 0, length := 4096 }

/-- A packet that ends at 4084, that header, and all of its data. -/
def fullHeaderStream : List UInt8 := longPacket.bytes ++ (fullHeader.bytes ++ List.replicate 4096 0)

theorem length_fullHeaderStream : fullHeaderStream.length = 8194 := by
  rw [fullHeaderStream, List.length_append, List.length_append, WirePacket.length_bytes, size_longPacket,
    List.length_replicate]
  rfl

section FullHeader

variable {S : Mem} {s : Reader} {n base : Nat} {l : List IbPtr} {al : Alloc} {b : BufPtr} {bs : List UInt8}

/-- **A read into the next buffer** leaves the parser at the header: the data ends in a third buffer. -/
theorem waits_at_fullHeader (v : View s S n 4084 s.inBuf base l) (ho : s.Owned l) (hal : al.Succeeds)
    (hb : b ∈ s.bufUse) (hoff : (s.bufs b).offset = 0) (hnew : ∀ a ∈ l, (s.ibs a).buf ≠ b)
    (hS : S.Holds 4084 fullHeader.bytes) (hn : n % bufferSize = 0) (hpos : 0 < n) (hbs : S.Holds n bs)
    (hlen : 2 ≤ bs.length ∧ bs.length ≤ bufferSize) : ∃ t base' a l' h,
      (∀ fuel, l.length < fuel → (s.fill b bs).appendBuffer fuel al b = some (t, true)) ∧
        t.bufs = (s.fill b bs).bufs ∧ t.bufUse = s.bufUse ∧ t.inBuf = some a ∧
        View t S (n + bs.length) 4084 t.inBuf base' (a :: l') ∧ t.Owned (a :: l') ∧
        AtHeader (t, some a) a h ∧ h.size = 4110 ∧ t.locate a h = none := by
  have hlast : ∃ a, l.getLast? = some a ∧ (s.ibs a).buf = (s.ibs ((l.getLast?).getD 0)).buf := by
    cases hl : l.getLast? with
    | none =>
      obtain rfl := List.getLast?_eq_none_iff.1 hl
      have h₁ := v.laid
      have h₂ := v.pos
      have h₃ := v.aligned
      simp only [Laid, headOffset, bufferSize] at *
      omega
    | some a => exact ⟨a, rfl, rfl⟩
  obtain ⟨t, l', happ, hbufs, huse, -, v', ho', c, hc, -⟩ := view_arrive v ho (fun _ => hlast) hal.inBuffer hb
    (hoff.trans hn.symm) (fun h => absurd hn h) (fun _ => hnew) hbs (List.ne_nil_of_length_pos (by omega)) (by omega)
  obtain ⟨a, r, rfl, hi⟩ : ∃ a r, l' = a :: r ∧ t.inBuf = some a := by
    cases l' with
    | nil => cases hc
    | cons a r => exact ⟨a, r, rfl, v'.chain.1⟩
  have w := v'
  rw [hi] at w
  have hP := w.pos_eq
  have hle := w.offset_le
  have hal₁ := w.aligned
  have hfill := w.filled
  obtain ⟨h, hat, hh⟩ := atHeader_of_view w (by simp only [sizeofPacket, bufferSize] at *; omega) hS rfl (by decide)
  have hodd : h.oddSize = 0 := by
    rw [Header.oddSize, hh]
    rfl
  have hsize : h.size = 4110 := by
    rw [Header.size_of_pos (by rw [hh]; decide), hh, hodd]
    rfl
  refine ⟨t, base, a, r, h, happ, hbufs, huse, hi, v', ho', hat, hsize, ?_⟩
  -- the header is at 4084 of its buffer
  refine Option.not_isSome_iff_eq_none.1 fun hs => ?_
  have h₂ := ((locate_isSome_iff w.window hle hat.read).1 hs).2
  simp only [hsize, Filled, bufferSize] at *
  omega

end FullHeader

/-- **A header that announces 4096 bytes, at 4084 of a buffer**, is waited at for ever. -/
theorem full_header_waits : ¬∀ (es : List Event) (fuel : Nat) (x : Rx), (∀ e ∈ es, e.Allowed) →
    runs (step fuel) fresh es = some x → ∀ (al : Alloc) (b : BufPtr) (bs : List UInt8), al.Succeeds →
      x.readBuffer = some b → bs ≠ [] → (x.rd.bufs b).offset + bs.length ≤ bufferSize →
      ∀ (t : Reader × Option IbPtr) (a : IbPtr) (h : Header) (P : Nat), (x.rd.fill b bs).ComesTo al b t →
        AtHeader t a h → t.1.locate a h = none → t.1.Stands (received es ++ bs).length a P →
        (received es ++ bs).length < P + h.size := by
  intro hall
  have hal := Alloc.unbounded_succeeds
  have hlen := length_fullHeaderStream
  let bs₁ := fullHeaderStream.take 4096
  let bs₂ := (fullHeaderStream.drop 4096).take 4096
  let bs₃ := fullHeaderStream.drop 8192
  have hlen₁ : bs₁.length = 4096 := by rw [List.length_take, hlen]; rfl
  have hlen₂ : bs₂.length = 4096 := by rw [List.length_take, List.length_drop, hlen]; rfl
  have hlen₃ : bs₃.length = 2 := by rw [List.length_drop, hlen]
  have hsplit : bs₁ ++ (bs₂ ++ bs₃) = fullHeaderStream := by
    have h₁ := List.take_append_drop 4096 fullHeaderStream
    have h₂ := List.take_append_drop 4096 (fullHeaderStream.drop 4096)
    rw [List.drop_drop] at h₂
    simp only [bs₁, bs₂, bs₃]
    rw [h₂, h₁]
  have hS := Mem.holds_ofList fullHeaderStream
  generalize Mem.ofList fullHeaderStream = S at hS
  have hreads := hS
  rw [← hsplit, Mem.holds_append, Mem.holds_append, hlen₁, hlen₂, Nat.zero_add] at hreads
  rw [fullHeaderStream, Mem.holds_append, Mem.holds_append, WirePacket.length_bytes, size_longPacket,
    Nat.zero_add] at hS
  clear_value bs₁ bs₂ bs₃
  -- the first read takes the packet, the second finds the header
  obtain ⟨t₁, c, l₁, base₁, hstep₁, -, v₁, ho₁, hc, hoff₁, hnew₁⟩ := receive_first hal (fun _ => default)
    (fun _ => default) hS.1 hreads.1 hlen₁
  obtain ⟨t₂, base₂, a₂, l₂, h₂, happ₂, hbufs₂, -, hi₂, v₂, ho₂, hat₂, -, hloc₂⟩ :=
    waits_at_fullHeader v₁ ho₁ hal hc hoff₁ hnew₁ hS.2.1 rfl (by decide) hreads.2.1 (by rw [hlen₂]; decide)
  have hp₂ : (t₁.fill c bs₂).processBuffer (l₁.length + 3) .unbounded c = some t₂ := by
    simp only [processBuffer, happ₂ _ (show l₁.length < l₁.length + 3 by omega), Option.bind_some, if_true, hi₂]
    exact Loop.run_done (hat₂.wait hloc₂)
  obtain ⟨d, hd, hstep₂⟩ := receive_full [] hal (by rintro rfl; cases hlen₂) (by rw [hoff₁, hlen₂]) hp₂
    (by rw [hbufs₂, bufs_fill_self, hoff₁, hlen₂])
  have hoff₂ : ((t₂.allocateBuffer d).bufs d).offset = 0 := by rw [bufs_allocateBuffer_self]
  -- the third read completes it
  obtain ⟨t₃, base₃, a₃, l₃, h₃, happ₃, -, -, hi₃, v₃, -, hat₃, hsize₃, hloc₃⟩ :=
    waits_at_fullHeader (v₂.allocateBuffer ho₂ hd) ho₂.allocateBuffer hal List.mem_cons_self hoff₂
      (fun a ha he => hd (he ▸ ho₂.bufUse a ha)) hS.2.1 (by rw [hlen₂]; rfl) (by omega) (by rw [hlen₂]; exact hreads.2.2)
      (by rw [hlen₃]; decide)
  rw [hi₃] at v₃
  have hrec : (received [.receive .unbounded bs₁, .receive .unbounded bs₂] ++ bs₃).length = 4096 + bs₂.length + bs₃.length := by
    simp only [received, List.append_nil, List.length_append, hlen₁]
  have hlt := hall [.receive .unbounded bs₁, .receive .unbounded bs₂] (l₁.length + 3) ⟨t₂.allocateBuffer d, some d, []⟩
    (by simp [Event.Allowed, hal])
    (by rw [fresh, runs_cons (hstep₁ _ (by omega)), runs_cons (hstep₂ _ (Nat.le_refl _)), runs_nil]) .unbounded d bs₃ hal
    rfl (by rintro rfl; cases hlen₃) (by rw [hoff₂, hlen₃]; decide) (t₃, some a₃) a₃ h₃ 4084
    ⟨_, t₃, happ₃ _ (Nat.lt_succ_self _), by rw [hi₃]; exact .refl⟩ hat₃ hloc₃
    (by rw [hrec]; exact v₃.pos_eq ▸ v₃.window.stands)
  rw [hrec, hsize₃, hlen₂, hlen₃] at hlt
  omega

end Rx

end AmiPiBorg
