import AmiPiBorg.Reader.Links

/-!
# When the parser ends

Every turn of `APB_ProcessBuffer` that goes round leaves less before the parser (`walking_turn`), so the loop ends
unless one of its turns does not. All that a turn can hang in is the checksum, and it hangs exactly on an odd number of
data bytes: on a complete packet whose length and `PF_PAD_BYTE` disagree (`turn_none_iff`). So a call ends exactly when
it comes to no such packet (`process_ends_iff`), in every state that a run of safe releases reaches (`reader_ends_iff`).
-/

set_option autoImplicit false

namespace AmiPiBorg

open ProgLib

/-- The header announces data, and `PF_PAD_BYTE` is not what its length needs. -/
def Packet.Misfit (p : Packet) : Prop := p.length.toNat ≠ 0 ∧ (p.length.toNat % 2 = 1 ↔ p.padded = false)

instance (p : Packet) : Decidable p.Misfit := inferInstanceAs (Decidable (_ ∧ _))

namespace Reader

variable {s : Reader} {al : Alloc} {M : List IbPtr} {b : BufPtr} {k : Nat}

/-- The parser is at a complete packet with `PACKET_ID` and a length in range, whose length and `PF_PAD_BYTE`
disagree. -/
def AtMisfit (t : Reader × Option IbPtr) : Prop :=
  ∃ a h d, t.2 = some a ∧ (t.1.ibs a).offset ≤ t.1.bytes a ∧ t.1.readHeader a = some h ∧ h.hdr.id = packetId ∧
    h.hdr.length.toNat ≤ bufferSize ∧ t.1.locate a h = some d ∧ h.hdr.Misfit

/-- The states in which a call of `APB_ProcessBuffer` starts a turn. -/
def ComesTo (s : Reader) (al : Alloc) (b : BufPtr) (t : Reader × Option IbPtr) : Prop :=
  ∃ fuel r, s.appendBuffer fuel al b = some (r, true) ∧ Loop.Reach (turn al) (r, r.inBuf) t

/-- The number of data bytes is odd when the length and the flag disagree. -/
theorem odd_iff_misfit {h : Header} {d : Located} (hL : Lengths h d) :
    (h.hdr.length.toNat + d.oddSize) % 2 = 1 ↔ h.hdr.Misfit := by
  rw [hL.odd, Header.oddSize, Packet.Misfit]
  by_cases h0 : h.hdr.length.toNat = 0
  · rw [if_pos h0, h0]
    simp
  · rw [if_neg h0]
    cases h.hdr.padded
    · simp only [Bool.false_eq_true, if_false, iff_true]
      omega
    · simp only [if_true, Bool.true_eq_false, iff_false]
      omega

/-- **A turn hangs exactly at such a packet.** -/
theorem turn_none_iff {t : Reader × Option IbPtr} (w : Walking M k t) : turn al t = none ↔ AtMisfit t := by
  obtain ⟨s, p⟩ := t
  have hlen : ∀ {a : IbPtr} {h : Header} {d : Located}, p = some a → (s.ibs a).offset ≤ s.bytes a →
      s.readHeader a = some h → s.locate a h = some d → Lengths h d := fun hp hle hr hd => by
    obtain ⟨L, -, l, hl, hc, -⟩ := w
    have ha := (show s.At M p from ⟨l, hl, hc⟩)
    rw [hp] at ha
    exact lengths_of_locate hr hd (L.even _ ha.mem) hle (L.bytes_le _ ha.mem)
  constructor
  · intro ht
    cases p with
    | none => cases ht
    | some a =>
      obtain ⟨h, d, hr, hd, hid, hle, hoff, hsum⟩ := turn_none ht
      have hL := hlen rfl hoff hr hd
      exact ⟨a, h, d, rfl, hoff, hr, hid, hle, hd, (odd_iff_misfit hL).1 ((packetSum_eq_none_iff hL hle).1 hsum)⟩
  · rintro ⟨a, h, d, rfl, hoff, hr, hid, hle, hd, hm⟩
    have hL := hlen rfl hoff hr hd
    have hsum := (packetSum_eq_none_iff (s := s) hL hle).2 ((odd_iff_misfit hL).2 hm)
    dsimp only at hoff hr hd
    simp only [turn, hr, hd, hsum, Option.map_none]
    rw [if_neg (Nat.not_lt.2 hoff), if_neg]
    rintro (hne | hlt)
    · exact hne hid
    · omega

/-- **A call ends exactly when it comes to no such packet.** -/
theorem process_ends_iff (st : s.Standing M) (hb : (s.bufs b).offset ≤ bufferSize) :
    (∃ fuel s', s.processBuffer fuel al b = some s') ↔ ∀ t, s.ComesTo al b t → ¬AtMisfit t := by
  obtain ⟨r, hr, -, M', st'⟩ := standing_append al b st hb
  have hr' : ∀ {fuel : Nat} {r' : Reader × Bool}, s.appendBuffer fuel al b = some r' → r' = r := fun {fuel r'} h =>
    Option.some.inj ((appendBuffer_mono h (le_max_left fuel (M.length + 1))).symm.trans (hr _ (le_max_right fuel (M.length + 1))))
  cases hr₂ : r.2 with
  | false =>
    refine iff_of_true ⟨M.length + 1, r.1, ?_⟩ fun t ⟨fuel, q, hq, _⟩ => ?_
    · rw [processBuffer_of_append (hr _ (Nat.lt_succ_self _)), hr₂]
      rfl
    · rw [← hr' hq] at hr₂
      cases hr₂
  | true =>
    have hwalk : ∀ {t : Reader × Option IbPtr}, Loop.Reach (turn al) (r.1, r.1.inBuf) t → ∃ k, Walking M' k t :=
      fun ht => ht.inv (fun t => ∃ k, Walking M' k t) (fun u u' ⟨k, w⟩ hu => by
        obtain hd | ⟨v, k', hv, -, w'⟩ := walking_turn w hu
        · cases hd
        · cases hv
          exact ⟨k', w'⟩) ⟨_, st'.walking⟩
    have hends : (∃ n s', Loop.run (turn al) n (r.1, r.1.inBuf) = some s') ↔
        ∀ t, Loop.Reach (turn al) (r.1, r.1.inBuf) t → turn al t ≠ none := Loop.ends_iff (Walking M') (fun k u u' w hu => by
      obtain hd | ⟨v, k', hv, hk, w'⟩ := walking_turn w hu
      · cases hd
      · cases hv
        exact ⟨k', hk, w'⟩) st'.walking
    constructor
    · rintro ⟨fuel, s', hp⟩ t ⟨fuel', q, hq, ht⟩ hm
      have hq' : q = r.1 := congrArg Prod.fst (hr' hq)
      subst hq'
      have hp' := (processBuffer_of_append (hr _ (le_max_right fuel (M.length + 1)))).symm.trans
        (processBuffer_mono hp (le_max_left _ _))
      rw [hr₂, if_pos rfl] at hp'
      obtain ⟨k, w⟩ := hwalk ht
      exact hends.1 ⟨_, _, hp'⟩ t ht ((turn_none_iff w).2 hm)
    · intro hno
      obtain ⟨n, s', hn⟩ := hends.2 fun t ht hnone => by
        obtain ⟨k, w⟩ := hwalk ht
        refine hno t ⟨M.length + 1, r.1, ?_, ht⟩ ((turn_none_iff w).1 hnone)
        rw [hr _ (Nat.lt_succ_self _), ← hr₂]
      refine ⟨max n (M.length + 1), s', ?_⟩
      rw [processBuffer_of_append (hr _ (le_max_right n (M.length + 1))), hr₂, if_pos rfl]
      exact Loop.run_mono hn (le_max_left _ _)

end Reader

namespace Rx

open Reader

/-- **The reader ends**, on arbitrary bytes, exactly when it comes to no complete packet whose length and `PF_PAD_BYTE`
disagree: in every state that a run of safe releases reaches, for every read into any buffer. -/
theorem reader_ends_iff (al₀ : Alloc) (ibs : IbPtr → InBuffer) (bufs : BufPtr → Buffer) (es : List Event) (fuel : Nat)
    (x : Rx) (hok : Along SafeStep (step fuel) (start al₀ ibs bufs) es)
    (hx : runs (step fuel) (start al₀ ibs bufs) es = some x) (al : Alloc) (b : BufPtr) (bs : List UInt8)
    (hfit : (x.rd.bufs b).offset + bs.length ≤ bufferSize) :
    (∃ n s', (x.rd.fill b bs).processBuffer n al b = some s') ↔
      ∀ t, (x.rd.fill b bs).ComesTo al b t → ¬AtMisfit t := by
  obtain ⟨⟨M, st⟩, -⟩ := sound_run hok hx
  refine process_ends_iff (st.fill hfit) ?_
  rw [bufs_fill_self]
  exact hfit

/-- Three bytes and the one that makes their number even. -/
def paddedPacket : WirePacket := WirePacket.sealed 1 2 3 [65, 66, 67] (by decide)

/-- The packet comes, is taken and released. -/
def paddedRelease : List Event := [.receive .unbounded paddedPacket.bytes, .dequeue, .release 0]

theorem paddedRelease_safe : Along SafeStep (step 4) fresh paddedRelease := by
  refine ⟨trivial, fun y hy => ⟨trivial, fun z hz => ⟨fun ip hip => ?_, fun _ _ => trivial⟩⟩⟩
  have htaken : (runs (step 4) fresh [.receive .unbounded paddedPacket.bytes, .dequeue]).map (fun x =>
      x.held.map fun ip => ((x.rd.ibs ip.inBuf).canRelease, x.rd.next ip.inBuf)) = some [(false, none)] := by
    decide +kernel
  rw [runs_cons hy, runs_cons hz, runs_nil, Option.map_some, Option.some.injEq] at htaken
  -- its buffer may not be freed yet, and none follows it
  have hip' := congrArg (fun l => l[0]?) htaken
  rw [List.getElem?_map, hip] at hip'
  simp only [Option.map_some, List.getElem?_cons_zero, Option.some.injEq, Prod.mk.injEq] at hip'
  obtain ⟨hrel, hnext⟩ := hip'
  exact ⟨fun _ h => absurd (hrel.symm.trans h) (by decide), fun b hb => by cases hnext.symm.trans hb⟩

/-- The packet comes again, and the call ends. -/
theorem reader_ends_iff_again : ∃ x, runs (step 4) fresh paddedRelease = some x ∧
    (∃ n s', (x.rd.fill 1 paddedPacket.bytes).processBuffer n .unbounded 1 = some s') ∧
    ∀ t, (x.rd.fill 1 paddedPacket.bytes).ComesTo .unbounded 1 t → ¬AtMisfit t := by
  have hruns : (runs (step 4) fresh paddedRelease).map (fun x => ((x.rd.bufs 1).offset,
      ((x.rd.fill 1 paddedPacket.bytes).processBuffer 4 .unbounded 1).isSome)) = some (18, true) := by
    decide +kernel
  obtain ⟨x, hx, he⟩ := Option.map_eq_some_iff.1 hruns
  rw [Prod.mk.injEq] at he
  obtain ⟨s', hs⟩ := Option.isSome_iff_exists.1 he.2
  have hends : ∃ n s', (x.rd.fill 1 paddedPacket.bytes).processBuffer n .unbounded 1 = some s' := ⟨4, s', hs⟩
  refine ⟨x, hx, hends, ?_⟩
  exact (reader_ends_iff .unbounded (fun _ => default) (fun _ => default) paddedRelease 4 x paddedRelease_safe hx .unbounded 1
    paddedPacket.bytes (by rw [he.1]; decide)).1 hends

/-- A header that announces one byte without `PF_PAD_BYTE`, and that byte. -/
def oddPacket : List UInt8 :=
  Packet.bytes { id := packetId, type := 1, flags := 0, connId := 1, packId := 1, checksum := 0, length := 1 } ++ [0]

/-- **A packet of odd length without a pad byte** stops the server: the first read never ends. -/
theorem odd_packet_never_ends : ¬∃ fuel x,
    step fuel (start .unbounded (fun _ => default) (fun _ => default)) (.receive .unbounded oddPacket) = some x := by
  rintro ⟨fuel, x, hx⟩
  obtain ⟨⟨M, st⟩, -⟩ := sound_start .unbounded (fun _ => default) (fun _ => default)
  let s := (start .unbounded (fun _ => default) (fun _ => default)).rd.fill 1 oddPacket
  have hst : s.Standing M := st.fill (by decide)
  let t := s.appended [] 1 1
  have hcomes : s.ComesTo .unbounded 1 (t, some 1) :=
    ⟨1, t, append_new rfl Nat.one_pos (fun a ha => (by cases ha)) rfl (fun ha => (by cases ha)), .refl⟩
  let h : Header := ⟨(t.data 1).from_ 0, 15, none, 14⟩
  have hbytes : t.bytes 1 = 15 := rfl
  have hoff : (t.ibs 1).offset = 0 := rfl
  have hread : t.readHeader 1 = some h := by
    simp only [readHeader, hbytes, hoff]
    rfl
  have hid : h.hdr.id = packetId := by decide
  have hlen : h.hdr.length.toNat = 1 := by decide
  have hodd : h.oddSize = 0 := by decide
  have hmis : h.hdr.Misfit := by decide
  have hloc : ∃ d, t.locate 1 h = some d := by
    simp only [locate, hbytes, hoff, hlen, hodd, h]
    exact ⟨_, rfl⟩
  obtain ⟨d, hloc⟩ := hloc
  -- the call comes to the packet, so it does not end
  obtain ⟨s', hp, -⟩ := Option.map_eq_some_iff.1 (show Option.map _ (s.processBuffer fuel .unbounded 1) = some x from hx)
  exact (process_ends_iff hst (by decide)).1 ⟨fuel, s', hp⟩ (t, some 1) hcomes
    ⟨1, h, d, rfl, Nat.zero_le _, hread, hid, by rw [hlen]; decide, hloc, hmis⟩

end Rx

end AmiPiBorg
