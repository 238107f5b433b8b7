import AmiPiBorg.Reader.Resync
import AmiPiBorg.Reader.Spans

/-!
# A lost byte

Packets have an even number of bytes, and the parser looks for `PACKET_ID` at even positions only. Behind a byte that
was lost every packet starts at an odd position of what is received, so the parser takes none of them, wherever they
are (`deletion_is_final`): it does not come back into step (`deletion_not_survived`).
-/

set_option autoImplicit false

namespace AmiPiBorg.Rx

open ProgLib Reader

/-- The packet `p` of the stream starts at position `q`. -/
def StartsAt (ps : List WirePacket) (p : WirePacket) (q : Nat) : Prop :=
  ∃ pre post, ps = pre ++ p :: post ∧ q = (pre.flatMap WirePacket.bytes).length

variable {ps : List WirePacket} {p : WirePacket} {q i k : Nat} {bs xs : List UInt8}

theorem length_stream_even (ps : List WirePacket) : (ps.flatMap WirePacket.bytes).length % 2 = 0 := by
  induction ps with
  | nil => rfl
  | cons p ps ih =>
    have := p.size_even
    rw [List.flatMap_cons, List.length_append, WirePacket.length_bytes]
    omega

/-- Every packet starts at an even position, and its bytes are there. -/
theorem StartsAt.even (h : StartsAt ps p q) : q % 2 = 0 := by
  obtain ⟨pre, post, -, rfl⟩ := h
  exact length_stream_even pre

theorem StartsAt.holds (h : StartsAt ps p q) : (Mem.ofList (ps.flatMap WirePacket.bytes)).Holds q p.bytes := by
  obtain ⟨pre, post, rfl, rfl⟩ := h
  have hS := Mem.holds_ofList ((pre ++ p :: post).flatMap WirePacket.bytes)
  generalize Mem.ofList _ = S at *
  rw [List.flatMap_append, List.flatMap_cons, Mem.holds_append, Mem.holds_append, Nat.zero_add] at hS
  exact hS.2.1

/-- Behind the lost byte everything is one position further on. -/
theorem ofList_deleted (h : bs <+: xs.eraseIdx i) (hk : k < bs.length) (hi : i ≤ k) :
    Mem.ofList bs k = Mem.ofList xs (k + 1) := by
  obtain ⟨rest, hr⟩ := h
  have hg : bs[k]? = xs[k + 1]? := by
    rw [← List.getElem?_append_left hk, hr, List.getElem?_eraseIdx, if_neg (Nat.not_lt.2 hi)]
  simp only [Mem.ofList, List.getD_eq_getElem?_getD, hg]

/-- **A lost byte is final**: what is queued occupies even ranges of what is received, and no packet behind the lost
byte starts at an even position of it. -/
theorem deletion_is_final (ps : List WirePacket) (i : Nat) (al : Alloc) (ibs : IbPtr → InBuffer) (bufs : BufPtr → Buffer)
    (es : List Event) (fuel : Nat) (x : Rx) (hal : ∀ al bs, .receive al bs ∈ es → al.Succeeds)
    (hrel : ∀ i, .release i ∉ es) (hstream : received es <+: (ps.flatMap WirePacket.bytes).eraseIdx i)
    (hx : runs (step fuel) (start al ibs bufs) es = some x) : ∃ rs : List (Nat × Nat),
      List.Forall₂ (x.rd.Occupies (Mem.ofList (received es))) x.unreleased rs ∧
        rs.Pairwise (fun r q => r.2 ≤ q.1) ∧ (∀ r ∈ rs, r.2 ≤ (received es).length) ∧
        ∀ p q, StartsAt ps p q → i < q → q - 1 + p.size ≤ (received es).length →
          (Mem.ofList (received es)).Holds (q - 1) p.bytes ∧ ∀ r ∈ rs, r.1 ≠ q - 1 := by
  obtain ⟨rs, hrs, hp, hle⟩ := packets_received al ibs bufs es fuel x (fun al bs h => (hal al bs h).inBuffer) hrel hx
  refine ⟨rs, hrs, hp, hle, fun p q hq hi hn => ⟨fun k hk => ?_, fun r hr he => ?_⟩⟩
  · have hb := hq.holds k hk
    rw [WirePacket.length_bytes] at hk
    rw [ofList_deleted hstream (show q - 1 + k < _ by omega) (by omega), show q - 1 + k + 1 = q + k by omega]
    exact hb
  · obtain ⟨ip, -, ho⟩ := forall₂_mem_right hrs hr
    have := ho.even
    have := hq.even
    omega

/-- Two short packets without the first byte. -/
theorem deletion_is_final_short : ∃ (x : Rx) (rs : List (Nat × Nat)),
    runs (step 40) fresh [.receive .unbounded (shortPacket.bytes.tail ++ shortPacket.bytes)] = some x ∧
      List.Forall₂ (x.rd.Occupies (Mem.ofList (received [.receive .unbounded (shortPacket.bytes.tail ++ shortPacket.bytes)])))
        x.unreleased rs ∧ ∀ r ∈ rs, r.1 ≠ 13 := by
  obtain ⟨x, hx⟩ := Option.isSome_iff_exists.1 (show
    (runs (step 40) fresh [.receive .unbounded (shortPacket.bytes.tail ++ shortPacket.bytes)]).isSome by decide +kernel)
  have hlen : shortPacket.bytes.length = 14 := by rw [WirePacket.length_bytes, size_shortPacket]
  have hq : StartsAt [shortPacket, shortPacket] shortPacket 14 :=
    ⟨[shortPacket], [], rfl, by rw [List.flatMap_singleton, hlen]⟩
  obtain ⟨rs, hrs, -, -, hno⟩ := deletion_is_final [shortPacket, shortPacket] 0 .unbounded (fun _ => default)
    (fun _ => default) _ 40 x (by rintro al bs h; cases List.mem_singleton.1 h; exact Alloc.unbounded_succeeds)
    (by rintro i h; cases List.mem_singleton.1 h)
    (by rw [List.eraseIdx_zero]; simp [received, List.tail_append_of_ne_nil, ← List.length_eq_zero_iff, hlen]) hx
  refine ⟨x, rs, hx, hrs, (hno _ _ hq (by decide) ?_).2⟩
  simp [received, hlen, size_shortPacket]

/-! ## A stream that is not picked up again -/

/-- A byte at an odd position of the stream is at an odd position of its packet. -/
theorem odd_byte : ∀ (ps : List WirePacket) {k : Nat}, k % 2 = 1 →
    Mem.ofList (ps.flatMap WirePacket.bytes) k = 0 ∨
      ∃ p ∈ ps, ∃ j, j % 2 = 1 ∧ Mem.ofList (ps.flatMap WirePacket.bytes) k = Mem.ofList p.bytes j
  | [], _, _ => .inl rfl
  | p :: ps, k, hk => by
    have hlen := p.length_bytes
    have heven := p.size_even
    simp only [List.flatMap_cons, Mem.ofList, List.getD_eq_getElem?_getD]
    by_cases h : k < p.bytes.length
    · exact .inr ⟨p, List.mem_cons_self, k, hk, by rw [List.getElem?_append_left h]⟩
    · rw [List.getElem?_append_right (Nat.not_lt.1 h)]
      obtain h0 | ⟨p', hp', j, hj, he⟩ := odd_byte ps (show (k - p.bytes.length) % 2 = 1 by omega)
      · exact .inl (by simpa only [Mem.ofList, List.getD_eq_getElem?_getD] using h0)
      · exact .inr ⟨p', List.mem_cons_of_mem p hp', j, hj,
          by simpa only [Mem.ofList, List.getD_eq_getElem?_getD] using he⟩

/-- However what is left of the stream is cut into reads, every packet that starts more than two buffers behind the
lost byte is queued as soon as it has arrived. -/
def Survives (ps : List WirePacket) (i : Nat) : Prop :=
  ∀ (al : Alloc) (ibs : IbPtr → InBuffer) (bufs : BufPtr → Buffer) (es : List Event), al.Succeeds →
    (∀ e ∈ es, e.Allowed) → Fits 0 es → received es <+: (ps.flatMap WirePacket.bytes).eraseIdx i →
    ∃ N x, (∀ fuel ≥ N, runs (step fuel) (start al ibs bufs) es = some x) ∧
      ∀ p q, StartsAt ps p q → i + 2 * bufferSize < q → q - 1 + p.size ≤ (received es).length →
        p.incoming ∈ x.unreleased.map x.rd.view

/-- No byte at an odd position of the short packet is the first of `PACKET_ID`. -/
theorem odd_byte_shortPacket {j : Nat} (hj : j % 2 = 1) : Mem.ofList shortPacket.bytes j ≠ 65 := by
  by_cases h : j < 14
  · have hall : ∀ j < 14, j % 2 = 1 → Mem.ofList shortPacket.bytes j ≠ 65 := by decide +kernel
    exact hall j h hj
  · have hlen : shortPacket.bytes.length = 14 := by rw [WirePacket.length_bytes, size_shortPacket]
    rw [Mem.ofList, List.getD_eq_getElem?_getD, List.getElem?_eq_none (by omega)]
    decide

theorem length_replicate (p : WirePacket) (n : Nat) :
    ((List.replicate n p).flatMap WirePacket.bytes).length = n * p.size := by
  rw [List.length_flatMap, List.map_replicate, List.sum_replicate_nat, WirePacket.length_bytes]

/-- **A stream of short packets without its first byte**: none of them is queued. -/
theorem deletion_not_survived :
    ¬∀ (ps : List WirePacket) (i : Nat), i < (ps.flatMap WirePacket.bytes).length → Survives ps i := by
  intro hall
  let ps := List.replicate 600 shortPacket
  have hlen : (ps.flatMap WirePacket.bytes).length = 8400 := by
    rw [length_replicate, size_shortPacket]
  let left := (ps.flatMap WirePacket.bytes).eraseIdx 0
  have hleft : left.length = 8399 := by rw [List.length_eraseIdx, hlen]; rfl
  let es : List Event := [.receive .unbounded (left.take 4096), .receive .unbounded ((left.drop 4096).take 4096),
    .receive .unbounded (left.drop 8192)]
  have hrec : received es = left := by
    have h₁ := List.take_append_drop 4096 left
    have h₂ := List.take_append_drop 4096 (left.drop 4096)
    rw [List.drop_drop] at h₂
    simp only [es, received, List.append_nil]
    rw [h₂, h₁]
  have hbytes : ∀ e ∈ es, e.Allowed := by
    simp [es, Event.Allowed, Alloc.unbounded_succeeds]
  have hfit : Fits 0 es := by
    simp only [es, Fits, List.length_take, List.length_drop, hleft]
    decide
  obtain ⟨N, x, hx, hq⟩ := hall ps 0 (by omega) .unbounded (fun _ => default) (fun _ => default) es
    Alloc.unbounded_succeeds hbytes hfit (by rw [hrec])
  have hlast : StartsAt ps shortPacket 8386 :=
    ⟨List.replicate 599 shortPacket, [], by rw [← List.replicate_succ'], by rw [length_replicate, size_shortPacket]⟩
  obtain ⟨ip, hip, -⟩ := List.mem_map.1 (hq _ _ hlast (by decide) (by rw [hrec, hleft, size_shortPacket]))
  obtain ⟨rs, hrs, -, hle⟩ := packets_received .unbounded (fun _ => default) (fun _ => default) es N x
    (fun al bs h => (hbytes _ h).inBuffer) (fun i h => hbytes _ h) (hx N (Nat.le_refl N))
  obtain ⟨r, hr, ho⟩ := forall₂_mem_left hrs hip
  -- `PACKET_ID` would start at an odd position of the packets
  have hid : Mem.ofList (received es) r.1 = 65 := by
    have h := be32_long ((Mem.ofList (received es)).from_ r.1) 0
    rw [show Mem.long _ 0 = packetId from ho.id] at h
    exact (List.cons.inj h).1.symm
  have hlt : r.1 < (received es).length := by
    have h₁ := hle r hr
    have h₂ := ho.ends
    have h₃ := Packet.le_extent (Packet.load ((Mem.ofList (received es)).from_ r.1))
    simp only [sizeofPacket] at h₃
    omega
  rw [ofList_deleted (by rw [hrec]) hlt (Nat.zero_le _)] at hid
  obtain h0 | ⟨p, hp, j, hj, he⟩ := odd_byte ps (show (r.1 + 1) % 2 = 1 by have := ho.even; omega)
  · rw [h0] at hid
    cases hid
  · rw [he, List.eq_of_mem_replicate hp] at hid
    exact odd_byte_shortPacket hj hid

end AmiPiBorg.Rx
