import AmiPiBorg.Reader.Turn

/-!
# The chain as a window on the stream

`Window s S n p base l`: of the stream `S` the first `n` bytes have arrived, and the chain `l` from `p` holds those from
`base` on. Then what the parser does at its first buffer depends on the stream alone:

* it reads the header at the offset of the buffer (`header_bytes`) exactly if it has arrived (`readHeader_isSome_iff`);
* it finds the data behind it, in whichever buffers it lies (`spread_of_locate`), exactly if that has arrived and lies
  in two buffers (`locate_isSome_iff`);
* the checksum it takes is that of the stream's words (`packetSum_eq`).

`View` is a window whose later offsets are zero; its head's offset stands at a position `P` of the stream.
-/

set_option autoImplicit false

namespace AmiPiBorg.Reader

open ProgLib

/-- The buffer of `a` is full, or is filled up to position `n`. -/
def Filled (s : Reader) (n base : Nat) (a : IbPtr) : Prop :=
  s.bytes a = bufferSize ∧ base + bufferSize < n ∨ s.bytes a = n - base ∧ n ≤ base + bufferSize

/-- The chain `l` holds the bytes of the stream `S` from position `base` to position `n`. -/
def Laid (s : Reader) (S : Mem) (n : Nat) : Nat → List IbPtr → Prop
  | base, [] => n ≤ base ∧ base < n + bufferSize
  | base, a :: l => base < n ∧ s.Filled n base a ∧ (∀ i < s.bytes a, s.data a i = S (base + i)) ∧
      Laid s S n (base + bufferSize) l

/-- The chain `l` from `p` holds the stream from `base` on. -/
structure Window (s : Reader) (S : Mem) (n : Nat) (p : Option IbPtr) (base : Nat) (l : List IbPtr) : Prop where
  chain : Chain s.next p l
  laid : Laid s S n base l
  aligned : base % bufferSize = 0

/-- The offset of the first buffer of a chain. -/
def headOffset (s : Reader) : List IbPtr → Nat
  | [] => 0
  | a :: _ => (s.ibs a).offset

/-- The parser at position `P` of the stream. -/
structure View (s : Reader) (S : Mem) (n P : Nat) (p : Option IbPtr) (base : Nat) (l : List IbPtr) : Prop where
  chain : Chain s.next p l
  laid : Laid s S n base l
  aligned : base % bufferSize = 0
  pos : P = base + s.headOffset l
  head_le : ∀ a ∈ l.head?, (s.ibs a).offset ≤ s.bytes a
  tail : ∀ a ∈ l.tail, (s.ibs a).offset = 0

variable {s : Reader} {S : Mem} {n P base : Nat} {a b : IbPtr} {p : Option IbPtr} {l : List IbPtr} {h : Header}
  {d : Located}

namespace Window

section Head

variable (w : Window s S n (some a) base (a :: l))
include w

theorem filled : s.Filled n base a := w.laid.2.1

theorem data_eq {i : Nat} (hi : i < s.bytes a) : s.data a i = S (base + i) := w.laid.2.2.1 i hi

theorem next_eq : s.next a = l.head? := w.chain.2.head

/-- There is no next buffer: the stream has arrived up to the end of this one. -/
theorem le_of_last (hl : l = []) : n ≤ base + bufferSize := by
  subst hl
  exact w.laid.2.2.2.1

/-- Behind the first buffer. -/
theorem behind : Window s S n (s.next a) (base + bufferSize) l := by
  refine ⟨w.chain.2, w.laid.2.2.2, ?_⟩
  have := w.aligned
  simp only [bufferSize] at *
  omega

end Head

theorem second (w : Window s S n (some a) base (a :: b :: l)) : base + bufferSize < n ∧ s.bytes a = bufferSize ∧
    s.Filled n (base + bufferSize) b ∧ (∀ i < s.bytes b, s.data b i = S (base + bufferSize + i)) := by
  obtain ⟨h₁, h₂, h₃, -⟩ := w.laid.2.2.2
  refine ⟨h₁, ?_, h₂, h₃⟩
  rcases w.filled with h | h <;> omega

end Window

namespace View

theorem window (v : View s S n P p base l) : Window s S n p base l := ⟨v.chain, v.laid, v.aligned⟩

section Head

variable (v : View s S n P (some a) base (a :: l))
include v

theorem pos_eq : P = base + (s.ibs a).offset := v.pos

theorem offset_le : (s.ibs a).offset ≤ s.bytes a := v.head_le a (by simp)

theorem filled : s.Filled n base a := v.window.filled

theorem next_eq : s.next a = l.head? := v.window.next_eq

end Head

theorem second (v : View s S n P (some a) base (a :: b :: l)) : base + bufferSize < n ∧ s.bytes a = bufferSize ∧
    s.Filled n (base + bufferSize) b ∧
    (∀ i < s.bytes b, s.data b i = S (base + bufferSize + i)) ∧ (s.ibs b).offset = 0 := by
  obtain ⟨h₁, h₂, h₃, h₄⟩ := v.window.second
  exact ⟨h₁, h₂, h₃, h₄, v.tail b (by simp)⟩

/-- Behind the first buffer. -/
theorem behind (v : View s S n P (some a) base (a :: l)) :
    View s S n (base + bufferSize) (s.next a) (base + bufferSize) l := by
  obtain ⟨h₁, h₂, h₃⟩ := v.window.behind
  refine ⟨h₁, h₂, h₃, ?_, ?_, fun c hc => v.tail c (List.mem_of_mem_tail hc)⟩
  · cases l with
    | nil => rfl
    | cons b r => simp only [headOffset, v.second.2.2.2.2, Nat.add_zero]
  · intro c hc
    rw [v.tail c (List.mem_of_mem_head? hc)]
    exact Nat.zero_le _

end View

/-! ## The header -/

section Header

variable (w : Window s S n (some a) base (a :: l)) (hle : (s.ibs a).offset ≤ s.bytes a)
include w hle

/-- **The header is read** exactly if it has arrived. -/
theorem readHeader_isSome_iff : (s.readHeader a).isSome ↔ base + (s.ibs a).offset + sizeofPacket ≤ n := by
  have h₁ := w.filled
  have h₂ := w.next_eq
  have h₃ := w.laid.1
  simp only [readHeader]
  split
  · cases l with
    | nil =>
      have h₄ := w.le_of_last rfl
      simp only [h₂, List.head?_nil, Filled, sizeofPacket, bufferSize] at *
      split <;> simp only [Option.isSome_none, Bool.false_eq_true, false_iff] <;> omega
    | cons b r =>
      obtain ⟨h₄, h₅, h₆, -⟩ := w.second
      simp only [h₂, List.head?_cons, Filled, sizeofPacket, bufferSize] at *
      rw [if_neg (by omega)]
      split <;> simp only [Option.isSome_none, Option.isSome_some, Bool.false_eq_true, false_iff, true_iff] <;> omega
  · simp only [Filled, sizeofPacket, bufferSize, Option.isSome_some, true_iff] at *
    omega

/-- The bytes of the header are those of the stream, from one buffer or from two. -/
theorem header_bytes (hr : s.readHeader a = some h) : ∀ i < sizeofPacket, h.p i = S (base + (s.ibs a).offset + i) := by
  have h₁ := w.filled
  have h₂ := w.next_eq
  obtain ⟨hbc, ⟨-, -, hge, hp⟩ | ⟨ib2, -, hn, hlt, hfull, hc, hle₂, hp⟩⟩ := readHeader_cases hr
  · intro i hi
    rw [hp, Mem.from_, w.data_eq (by omega), Nat.add_assoc]
  · cases l with
    | nil =>
      rw [h₂] at hn
      cases hn
    | cons b r =>
      obtain ⟨h₃, h₄, h₅, h₆⟩ := w.second
      rw [h₂] at hn
      cases hn
      intro i hi
      simp only [hp, Mem.from_]
      split
      · rw [w.data_eq (by omega), Nat.add_assoc]
      · rw [h₆ _ (by omega)]
        congr 1
        simp only [Filled, bufferSize] at *
        omega

end Header

theorem readHeader_wait (v : View s S n P (some a) base (a :: l)) (hn : n < P + sizeofPacket) :
    s.readHeader a = none := by
  have h := readHeader_isSome_iff v.window v.offset_le
  rw [v.pos_eq] at hn
  exact Option.not_isSome_iff_eq_none.1 fun hs => absurd (h.1 hs) (by omega)

theorem readHeader_read (v : View s S n P (some a) base (a :: l)) (hn : P + sizeofPacket ≤ n) :
    ∃ h, s.readHeader a = some h ∧ ∀ i < sizeofPacket, h.p i = S (P + i) := by
  rw [v.pos_eq] at hn ⊢
  obtain ⟨h, hr⟩ := Option.isSome_iff_exists.1 ((readHeader_isSome_iff v.window v.offset_le).2 hn)
  exact ⟨h, hr, header_bytes v.window v.offset_le hr⟩

/-! ## The data -/

/-- The number of bytes that a header announces. -/
def Header.size (h : Header) : Nat := if h.hdr.length.toNat = 0 then sizeofPacket
  else sizeofPacket + h.hdr.length.toNat + h.oddSize

theorem Header.size_of_pos (hl : h.hdr.length.toNat ≠ 0) :
    h.size = sizeofPacket + h.hdr.length.toNat + h.oddSize := if_neg hl

theorem Header.size_of_zero (hl : h.hdr.length.toNat = 0) : h.size = sizeofPacket := if_pos hl

theorem Header.oddSize_le (h : Header) : h.oddSize ≤ 1 := by
  simp only [Header.oddSize]
  split <;> omega

/-- **The data is found** exactly if all of it has arrived, and it does not go beyond the second buffer. -/
theorem locate_isSome_iff (w : Window s S n (some a) base (a :: l)) (hle : (s.ibs a).offset ≤ s.bytes a)
    (hr : s.readHeader a = some h) : (s.locate a h).isSome ↔
      base + (s.ibs a).offset + h.size ≤ n ∧ (s.ibs a).offset + h.size ≤ 2 * bufferSize := by
  have h₁ := w.filled
  have h₂ := w.next_eq
  have h₃ := (readHeader_isSome_iff w hle).1 (by rw [hr]; rfl)
  obtain ⟨hbc, hcase⟩ := readHeader_cases hr
  by_cases hlen : h.hdr.length.toNat = 0
  · simp only [locate, if_pos hlen, Header.size_of_zero hlen, Option.isSome_some, true_iff]
    simp only [Filled, sizeofPacket, bufferSize] at *
    omega
  rw [Header.size_of_pos hlen]
  obtain ⟨h₅, -, h₆, -⟩ | ⟨ib2, h₅, h₆, h₇, h₈, h₉, h₁₀, -⟩ := hcase
  · simp only [locate, if_neg hlen, h₅]
    split
    · -- the header ends the buffer
      rename_i hend
      cases l with
      | nil =>
        have h₇ := w.le_of_last rfl
        simp only [h₂, List.head?_nil, Option.isSome_none, Bool.false_eq_true, false_iff]
        simp only [Filled, sizeofPacket, bufferSize] at *
        omega
      | cons b r =>
        obtain ⟨h₇, h₈, h₉, -⟩ := w.second
        simp only [h₂, List.head?_cons, Filled, sizeofPacket, bufferSize] at *
        split <;> simp only [Option.isSome_none, Option.isSome_some, Bool.false_eq_true, false_iff, true_iff] <;> omega
    · rename_i hend
      split
      · -- the data is split
        rename_i hsplit
        cases l with
        | nil =>
          have h₇ := w.le_of_last rfl
          simp only [h₂, List.head?_nil]
          simp only [Filled, sizeofPacket, bufferSize] at *
          split <;> simp only [Option.isSome_none, Bool.false_eq_true, false_iff] <;> omega
        | cons b r =>
          obtain ⟨h₇, h₈, h₉, -⟩ := w.second
          simp only [h₂, List.head?_cons, Filled, sizeofPacket, bufferSize] at *
          rw [if_neg (by omega)]
          have := h.oddSize_le
          split <;> simp only [Option.isSome_none, Option.isSome_some, Bool.false_eq_true, false_iff, true_iff] <;> omega
      · -- all in one buffer
        simp only [Filled, sizeofPacket, bufferSize, Option.isSome_some, true_iff] at *
        omega
  · -- the header is split
    cases l with
    | nil =>
      rw [h₂] at h₆
      cases h₆
    | cons b r =>
      obtain ⟨h₁₁, h₁₂, h₁₃, -⟩ := w.second
      rw [h₂] at h₆
      cases h₆
      simp only [locate, if_neg hlen, h₅]
      simp only [Filled, sizeofPacket, bufferSize] at *
      split <;> simp only [Option.isSome_none, Option.isSome_some, Bool.false_eq_true, false_iff, true_iff] <;> omega

theorem locate_wait (v : View s S n P (some a) base (a :: l)) (hr : s.readHeader a = some h)
    (hn : n < P + h.size) : s.locate a h = none := by
  rw [v.pos_eq] at hn
  exact Option.not_isSome_iff_eq_none.1 fun hs =>
    absurd ((locate_isSome_iff v.window v.offset_le hr).1 hs).1 (by omega)

/-- Where the data of the packet at `P` lies, and where its packet ends. -/
structure Spread (s : Reader) (S : Mem) (P : Nat) (a : IbPtr) (l : List IbPtr) (h : Header) (d : Located) : Prop where
  len : d.dataLen1 + d.dataLen2 = h.hdr.length.toNat
  size : h.size = sizeofPacket + h.hdr.length.toNat + d.oddSize
  data1 : ∀ i < d.dataLen1 + (if d.dataLen2 = 0 then d.oddSize else 0), s.mem d.data1 i = S (P + sizeofPacket + i)
  data2 : 0 < d.dataLen2 → ∀ i < d.dataLen2 + d.oddSize, s.mem d.data2 i = S (P + sizeofPacket + d.dataLen1 + i)
  even1 : 0 < d.dataLen2 → 0 < d.dataLen1 ∧ d.dataLen1 % 2 = 0
  one : d.ib2 = none → d.consumed + d.oddSize = h.size
  two : ∀ c, d.ib2 = some c → l.head? = some c ∧
    (s.ibs a).offset + h.size = bufferSize + (d.consumed + d.oddSize)

theorem mem_data {off i : Nat} : s.mem (some ((s.ibs a).buf, off)) i = s.data a (off + i) := rfl

/-- **What was found lies where the header says**, for a packet of even size at an even offset. -/
theorem spread_of_locate (w : Window s S n (some a) base (a :: l)) (hle : (s.ibs a).offset ≤ s.bytes a)
    (heven : (s.ibs a).offset % 2 = 0) (hr : s.readHeader a = some h) (he : h.size % 2 = 0)
    (hd : s.locate a h = some d) : Spread s S (base + (s.ibs a).offset) a l h d := by
  have h₁ := w.filled
  have h₂ := w.next_eq
  obtain ⟨hbc, hcase⟩ := readHeader_cases hr
  have hodd := h.oddSize_le
  -- a header in one buffer, and one in two
  have hone : h.ib2 = none → h.consumed = sizeofPacket ∧ sizeofPacket ≤ h.bc := fun hn => by
    obtain ⟨-, h₃, h₄, -⟩ | ⟨ib2, h₃, -⟩ := hcase
    · exact ⟨h₃, h₄⟩
    · cases hn.symm.trans h₃
  have htwo : ∀ c, h.ib2 = some c → s.next a = some c ∧ h.bc < sizeofPacket ∧ h.consumed = sizeofPacket - h.bc ∧
      bufferSize ≤ s.bytes a := fun c hc => by
    obtain ⟨h₃, -⟩ | ⟨ib2, h₃, h₄, h₅, h₆, h₇, -⟩ := hcase
    · cases h₃.symm.trans hc
    · cases h₃.symm.trans hc
      exact ⟨h₄, h₅, h₇, h₆⟩
  have hsecond : ∀ c, s.next a = some c → l.head? = some c ∧ s.bytes a = bufferSize ∧
      ∀ i < s.bytes c, s.data c i = S (base + bufferSize + i) := fun c hc => by
    rw [h₂] at hc
    obtain ⟨r, rfl⟩ := List.head?_eq_some_iff.1 hc
    exact ⟨hc, w.second.2.1, w.second.2.2.2⟩
  clear hcase
  obtain ⟨hlen, rfl⟩ | ⟨hlen, ⟨h₃, h₄, h₅, c, hn, hb, rfl⟩ | ⟨h₃, h₄, h₅, h₆, c, hn, hb, rfl⟩ | ⟨h₃, h₄, rfl⟩ |
    ⟨c, h₃, hb, rfl⟩⟩ := locate_cases hd
  · have hsz := Header.size_of_zero hlen
    refine ⟨hlen.symm, by rw [hlen]; exact hsz, fun i hi => absurd hi (Nat.not_lt_zero i),
      fun h0 => absurd h0 (lt_irrefl 0), fun h0 => absurd h0 (lt_irrefl 0), fun h0 => ?_, fun c h0 => ?_⟩
    · rw [hsz]
      exact (hone h0).1
    · obtain ⟨hn, h₃, h₄, h₅⟩ := htwo c h0
      refine ⟨(hsecond c hn).1, ?_⟩
      simp only [hsz, Filled, sizeofPacket, bufferSize] at *
      omega
  · -- the header ends the buffer
    have hsz := Header.size_of_pos hlen
    obtain ⟨hh, -, h₆⟩ := hsecond c hn
    refine ⟨rfl, hsz, fun i hi => ?_, fun h0 => absurd h0 (lt_irrefl 0), fun h0 => absurd h0 (lt_irrefl 0),
      fun h0 => (by cases h0), ?_⟩
    · simp only [if_true] at hi
      rw [mem_data, h₆ _ (by omega)]
      simp only [sizeofPacket, bufferSize] at *
      congr 1
      omega
    · rintro e ⟨⟩
      refine ⟨hh, ?_⟩
      simp only [sizeofPacket, bufferSize] at *
      omega
  · -- the data is split
    have hsz := Header.size_of_pos hlen
    obtain ⟨hh, h₇, h₈⟩ := hsecond c hn
    have h₉ := (hone h₃).2
    refine ⟨by simp only; omega, hsz, fun i hi => ?_, fun _ i hi => ?_, fun h0 => ?_, fun h0 => (by cases h0), ?_⟩
    · simp only at hi
      rw [mem_data, w.data_eq (by simp only [sizeofPacket, bufferSize] at *; split at hi <;> omega)]
      congr 1
      omega
    · simp only at hi
      rw [mem_data, h₈ _ (by omega)]
      simp only [sizeofPacket, bufferSize] at *
      congr 1
      omega
    · simp only [sizeofPacket, bufferSize] at *
      omega
    · rintro e ⟨⟩
      refine ⟨hh, ?_⟩
      simp only [sizeofPacket, bufferSize] at *
      omega
  · -- all in one buffer
    have hsz := Header.size_of_pos hlen
    obtain ⟨h₅, h₆⟩ := hone h₃
    refine ⟨rfl, hsz, fun i hi => ?_, fun h0 => absurd h0 (lt_irrefl 0), fun h0 => absurd h0 (lt_irrefl 0),
      fun _ => ?_, fun c h0 => (by cases h0)⟩
    · simp only [if_true] at hi
      rw [mem_data, w.data_eq (by omega)]
      congr 1
      omega
    · simp only
      omega
  · -- the header is split
    have hsz := Header.size_of_pos hlen
    obtain ⟨hn, h₄, h₅, h₆⟩ := htwo c h₃
    obtain ⟨hh, -, h₇⟩ := hsecond c hn
    refine ⟨rfl, hsz, fun i hi => ?_, fun h0 => absurd h0 (lt_irrefl 0), fun h0 => absurd h0 (lt_irrefl 0),
      fun h0 => (by cases h0), ?_⟩
    · simp only [if_true] at hi
      rw [mem_data, h₇ _ (by omega)]
      simp only [Filled, sizeofPacket, bufferSize] at *
      congr 1
      omega
    · rintro e ⟨⟩
      refine ⟨hh, ?_⟩
      simp only [Filled, sizeofPacket, bufferSize] at *
      omega

theorem locate_found (v : View s S n P (some a) base (a :: l)) (hr : s.readHeader a = some h)
    (hsize : h.size ≤ bufferSize) (hn : P + h.size ≤ n) (hP : P % 2 = 0) (he : h.size % 2 = 0) :
    ∃ d, s.locate a h = some d ∧ Spread s S P a l h d := by
  have h₁ := v.offset_le
  have h₂ := v.filled
  have h₃ := v.aligned
  have h₄ := v.pos_eq
  simp only [Filled, bufferSize] at *
  obtain ⟨d, hd⟩ := Option.isSome_iff_exists.1 ((locate_isSome_iff v.window v.offset_le hr).2
    (by simp only [bufferSize]; omega))
  exact ⟨d, hd, h₄ ▸ spread_of_locate v.window v.offset_le (by omega) hr he hd⟩

/-! ## The checksum -/

/-- **The checksum is taken over the words of the stream**, wherever they lie. -/
theorem packetSum_eq (hp : ∀ i < sizeofPacket, h.p i = S (P + i)) (sp : Spread s S P a l h d)
    (hsize : h.size < 65536) (he : h.size % 2 = 0) :
    s.packetSum h d = completeChecksum (UInt32.ofNat (S.wordSum P (h.size / 2))) := by
  have hhdr : addToChecksum 0 h.p sizeofPacket = some (UInt32.ofNat (S.wordSum P 7)) := by
    have hw : h.p.wordSum 0 7 = S.wordSum P 7 := Mem.wordSum_congr fun i hi => by
      rw [Nat.zero_add]
      exact hp i hi
    rw [addToChecksum_even (by decide) (by decide), UInt32.zero_add, ← hw]
    rfl
  have hsz := sp.size
  have hl := sp.len
  simp only [packetSum, hhdr, Option.bind_some]
  by_cases h₁ : 0 < d.dataLen1
  · rw [if_pos h₁]
    by_cases h₂ : 0 < d.dataLen2
    · -- the data lies in two buffers
      have h₃ := (sp.even1 h₂).2
      have hd₁ : (s.mem d.data1).wordSum 0 (d.dataLen1 / 2) = S.wordSum (P + sizeofPacket) (d.dataLen1 / 2) :=
        Mem.wordSum_congr fun i hi => by
          rw [Nat.zero_add]
          exact sp.data1 i (by split <;> omega)
      have hd₂ : (s.mem d.data2).wordSum 0 ((d.dataLen2 + d.oddSize) / 2) =
          S.wordSum (P + sizeofPacket + d.dataLen1) ((d.dataLen2 + d.oddSize) / 2) :=
        Mem.wordSum_congr fun i hi => by
          rw [Nat.zero_add]
          exact sp.data2 h₂ i (by omega)
      have hsplit : S.wordSum P (h.size / 2) = S.wordSum P 7 + S.wordSum (P + sizeofPacket) (d.dataLen1 / 2) +
          S.wordSum (P + sizeofPacket + d.dataLen1) ((d.dataLen2 + d.oddSize) / 2) := by
        simp only [sizeofPacket] at *
        rw [show h.size / 2 = 7 + d.dataLen1 / 2 + (d.dataLen2 + d.oddSize) / 2 by omega, Mem.wordSum_add,
          Mem.wordSum_add, show 2 * (7 + d.dataLen1 / 2) = 14 + d.dataLen1 by omega, Nat.add_assoc P]
      simp only [sizeofPacket] at hsz
      rw [if_pos h₂, addToChecksum_even h₃ (by omega), Option.bind_some, addToChecksum_even (by omega) (by omega),
        Option.bind_some, hd₁, hd₂, ← UInt32.ofNat_add, ← UInt32.ofNat_add, hsplit]
    · have hd₁ : (s.mem d.data1).wordSum 0 ((d.dataLen1 + d.oddSize) / 2) =
          S.wordSum (P + sizeofPacket) ((d.dataLen1 + d.oddSize) / 2) :=
        Mem.wordSum_congr fun i hi => by
          rw [Nat.zero_add]
          exact sp.data1 i (by rw [if_pos (by omega)]; omega)
      have hsplit : S.wordSum P (h.size / 2) =
          S.wordSum P 7 + S.wordSum (P + sizeofPacket) ((d.dataLen1 + d.oddSize) / 2) := by
        simp only [sizeofPacket] at *
        rw [show h.size / 2 = 7 + (d.dataLen1 + d.oddSize) / 2 by omega, Mem.wordSum_add]
      simp only [sizeofPacket] at hsz
      rw [if_neg h₂, addToChecksum_even (by omega) (by omega), Option.bind_some, hd₁, ← UInt32.ofNat_add, hsplit]
  · have h₂ : ¬0 < d.dataLen2 := fun h₂ => h₁ (sp.even1 h₂).1
    have h₃ : h.size = sizeofPacket := Header.size_of_zero (by omega)
    rw [if_neg h₁, Option.bind_some, h₃]
    rfl

end AmiPiBorg.Reader
