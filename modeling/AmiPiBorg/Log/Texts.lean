import AmiPiBorg.Lib.Numerals
import AmiPiBorg.Log.Defs

/-!
# What the log formatter says

`Says l l' bs` holds when a function that takes the logger `l` to `l'` has handed the bytes `bs` to `APB_LogByte`, and
has kept the buffers in order (`Sound`). A string is said with its padding (`says_logString`), a number as a numeral
with its padding (`says_logNumber`).
-/

set_option autoImplicit false

namespace AmiPiBorg.Log

open ProgLib ProgLib.Numerals

/-- The bytes of the buffers that a message may be put together in. The last byte of `l_Buf` is not one of them. -/
def Place.InRange : Place → Prop
  | .buf i => i < logBufLen
  | .numBuf i => i < numBufLen

/-- The buffer holds what was said as far as there is room, and the NUL at its end is untouched. -/
structure Sound (l : Logger) : Prop where
  fill : l.end_ = min l.said.length logBufLen
  text : ∀ i < l.end_, l.said[i]? = some (l.buf i)
  last : l.buf logBufLen = 0
  stores : ∀ p ∈ l.stores, p.InRange

/-- From `l` to `l'`, the bytes `bs` are said. -/
structure Says (l l' : Logger) (bs : List UInt8) : Prop where
  said : l'.said = l.said ++ bs
  fh : l'.outputFh = l.outputFh
  sound : Sound l → Sound l'

variable {l l' l'' : Logger} {bs cs s : List UInt8} {c : UInt8} {v : Int32} {base width flags : UInt16} {letBase : Int8}

theorem Says.refl (l : Logger) : Says l l [] := ⟨(List.append_nil _).symm, rfl, id⟩

theorem Says.trans (h : Says l l' bs) (h' : Says l' l'' cs) : Says l l'' (bs ++ cs) where
  said := by rw [h'.said, h.said, List.append_assoc]
  fh := h'.fh.trans h.fh
  sound hs := h'.sound (h.sound hs)

theorem logByte_full (hfull : logBufLen ≤ l.end_) (c : UInt8) : logByte l c = { l with said := l.said ++ [c] } := by
  simp only [logByte, ge_iff_le, if_pos hfull]

theorem logByte_room (hroom : l.end_ < logBufLen) (c : UInt8) : logByte l c = { l with
    said := l.said ++ [c]
    buf := Function.update l.buf l.end_ c
    stores := l.stores ++ [.buf l.end_]
    end_ := l.end_ + 1 } := by
  simp only [logByte, ge_iff_le, if_neg (Nat.not_le.2 hroom)]

/-- A byte that there is no room for. -/
theorem Sound.full (hs : Sound l) (hfull : logBufLen ≤ l.end_) (c : UInt8) : Sound (logByte l c) := by
  have hfill := hs.fill
  rw [logByte_full hfull]
  refine ⟨?_, fun i hi => ?_, hs.last, hs.stores⟩
  · show l.end_ = min (l.said ++ [c]).length logBufLen
    rw [List.length_append, List.length_singleton]
    omega
  · have hlt : i < l.said.length := (List.getElem?_eq_some_iff.1 (hs.text i hi)).1
    show (l.said ++ [c])[i]? = _
    rw [List.getElem?_append_left hlt]
    exact hs.text i hi

/-- A byte that is stored behind the others. -/
theorem Sound.room (hs : Sound l) (hroom : l.end_ < logBufLen) (c : UInt8) : Sound (logByte l c) := by
  have hfill := hs.fill
  rw [logByte_room hroom]
  refine ⟨?_, fun i hi => ?_, ?_, fun p hp => ?_⟩
  · show l.end_ + 1 = min (l.said ++ [c]).length logBufLen
    rw [List.length_append, List.length_singleton]
    omega
  · show (l.said ++ [c])[i]? = some (Function.update l.buf l.end_ c i)
    by_cases hi' : i = l.end_
    · rw [hi', Function.update_self, show l.end_ = l.said.length by omega, List.getElem?_concat_length]
    · have hlt : i < l.end_ := by
        change i < l.end_ + 1 at hi
        omega
      rw [Function.update_of_ne hi', List.getElem?_append_left (by omega), hs.text i hlt]
  · show Function.update l.buf l.end_ c logBufLen = 0
    rw [Function.update_of_ne (by omega)]
    exact hs.last
  · rcases List.mem_append.1 hp with hp | hp
    · exact hs.stores p hp
    · rw [List.mem_singleton.1 hp]
      exact hroom

/-- One byte more. -/
theorem says_logByte (l : Logger) (c : UInt8) : Says l (logByte l c) [c] := by
  rcases Nat.lt_or_ge l.end_ logBufLen with hroom | hfull
  · have heq := logByte_room hroom c
    exact ⟨by rw [heq], by rw [heq], fun hs => hs.room hroom c⟩
  · have heq := logByte_full hfull c
    exact ⟨by rw [heq], by rw [heq], fun hs => hs.full hfull c⟩

theorem says_logBytes (l : Logger) (bs : List UInt8) : Says l (logBytes l bs) bs := by
  induction bs generalizing l with
  | nil => exact .refl l
  | cons c bs ih => exact (says_logByte l c).trans (ih (logByte l c))

@[simp] theorem setNum_self (l : Logger) (i : Nat) (c : UInt8) : (l.setNum i c).numBuf i = c := by simp [Logger.setNum]

theorem setNum_of_ne (l : Logger) {i j : Nat} (h : j ≠ i) (c : UInt8) : (l.setNum i c).numBuf j = l.numBuf j := by
  simp [Logger.setNum, h]

theorem says_setNum (l : Logger) {i : Nat} (hi : i < numBufLen) (c : UInt8) : Says l (l.setNum i c) [] := by
  refine ⟨(List.append_nil _).symm, rfl, fun hs => ⟨hs.fill, hs.text, hs.last, fun p hp => ?_⟩⟩
  rcases List.mem_append.1 hp with hp | hp
  · exact hs.stores p hp
  · rw [List.mem_singleton.1 hp]
    exact hi

/-! ## Strings -/

/-- A string with its padding, of zeros or spaces, on the left or on the right. -/
def stringText (s : List UInt8) (width flags : UInt16) : List UInt8 :=
  let pad := List.replicate (width.toNat - s.length % 65536) (if flags &&& padZero ≠ 0 then chr '0' else chr ' ')
  if flags &&& padRight = 0 then pad ++ s else s ++ pad

theorem toNat_padWidth (len width : UInt16) : (padWidth len width).toNat = width.toNat - len.toNat := by
  have h0 : (0 : UInt16).toNat = 0 := rfl
  unfold padWidth
  by_cases hpos : 0 < width
  · rw [if_pos hpos]
    by_cases hge : len ≥ width
    · have := UInt16.le_iff_toNat_le.1 hge
      rw [if_pos hge]
      omega
    · have hlt : len.toNat < width.toNat := Nat.lt_of_not_le fun h => hge (UInt16.le_iff_toNat_le.2 h)
      rw [if_neg hge, UInt16.toNat_sub_of_le _ _ (UInt16.le_iff_toNat_le.2 hlt.le)]
  · have hz : ¬(0 : UInt16).toNat < width.toNat := fun h => hpos (UInt16.lt_iff_toNat_lt.2 h)
    rw [if_neg hpos]
    omega

/-- Where there is something to pad, it is padded with what the flags say. -/
theorem replicate_padByte {width : UInt16} {n : Nat} (hn : n ≤ width.toNat) (flags : UInt16) :
    List.replicate n (padByte width flags) =
      List.replicate n (if flags &&& padZero ≠ 0 then chr '0' else chr ' ') := by
  by_cases hpos : 0 < width
  · simp only [padByte, hpos, true_and]
  · have hz : ¬(0 : UInt16).toNat < width.toNat := fun h => hpos (UInt16.lt_iff_toNat_lt.2 h)
    have h0 : (0 : UInt16).toNat = 0 := rfl
    rw [show n = 0 by omega]
    rfl

/-- **A string is said with its padding.** -/
theorem says_logString (l : Logger) (s : List UInt8) (width flags : UInt16) :
    Says l (logString l s width flags) (stringText s width flags) := by
  have hlen : (UInt16.ofNat s.length).toNat = s.length % 65536 := UInt16.toNat_ofNat' ..
  have hw : (padWidth (UInt16.ofNat s.length) width).toNat = width.toNat - s.length % 65536 := by
    rw [toNat_padWidth, hlen]
  have hpad := replicate_padByte (Nat.sub_le width.toNat (s.length % 65536)) flags
  have hsay := fun a b => ((says_logBytes l a).trans (says_logBytes _ s)).trans (says_logBytes _ b)
  by_cases hright : flags &&& padRight = 0
  · simp only [logString, stringText, if_pos hright, UInt16.sub_self, hw, hpad]
    simpa using hsay _ []
  · simp only [logString, stringText, if_neg hright, UInt16.sub_zero, hw, hpad]
    simpa using hsay [] _

/-! ## Numbers -/

/-- The numeral of a number: that of its negation after a sign, if the flags have a bit of `SIGNED` and it is a negative
one in base ten. -/
def numberText (v : Int32) (base flags : UInt16) (letBase : Int8) : List UInt8 :=
  if flags &&& signed ≠ 0 ∧ base = 10 ∧ v < 0 then
    chr '-' :: numeral base.toNat letBase.toUInt8 (-v).toUInt32.toNat
  else numeral base.toNat letBase.toUInt8 v.toUInt32.toNat

/-- The bases and first letters that the formatter uses. -/
structure Usual (base : UInt16) (letBase : Int8) : Prop where
  one_lt : 1 < base.toNat
  le : base.toNat ≤ 16
  letter : letBase = 97 ∨ letBase = 65

variable {u : UInt32}

theorem Usual.isLetter (h : Usual base letBase) : Letter letBase.toUInt8 := by
  rcases h.letter with rfl | rfl
  · exact ⟨by decide, by decide⟩
  · exact ⟨by decide, by decide⟩

/-- The byte that a digit is made into. -/
theorem digit_eq (hl : letBase = 97 ∨ letBase = 65) {d : Nat} (hd : d < 16) :
    ((if 10 ≤ (UInt8.ofNat d).toInt8 then (UInt8.ofNat d).toInt8 + letBase - 48 - 10 else (UInt8.ofNat d).toInt8) +
      48).toUInt8 = digitByte letBase.toUInt8 d := by
  have hall : ∀ b ∈ [(97 : Int8), 65], ∀ d ∈ List.range 16,
      ((if 10 ≤ (UInt8.ofNat d).toInt8 then (UInt8.ofNat d).toInt8 + b - 48 - 10 else (UInt8.ofNat d).toInt8) +
        48).toUInt8 = digitByte b.toUInt8 d := by decide +kernel
  exact hall letBase (by simpa using hl) d (List.mem_range.2 hd)

theorem digitLoop_zero (base : UInt16) (letBase : Int8) (s : Nat) (l : Logger) :
    digitLoop base letBase s 0 l = some (l, s) := by
  cases s <;> simp [digitLoop]

theorem digitLoop_succ (hl : letBase = 97 ∨ letBase = 65) (hb : base.toNat ≤ 16) (h1 : 1 < base.toNat) (s : Nat)
    (h0 : u ≠ 0) (l : Logger) : digitLoop base letBase (s + 1) u l =
      digitLoop base letBase s (u / base.toUInt32)
        (l.setNum s (digitByte letBase.toUInt8 (u.toNat % base.toNat))) := by
  have hbase : base.toUInt32.toNat = base.toNat := rfl
  have hmod := Nat.mod_lt u.toNat (show 0 < base.toNat by omega)
  have hdig : (u % base.toUInt32).toUInt8 = UInt8.ofNat (u.toNat % base.toNat) := by
    rw [← UInt8.toNat_inj, UInt32.toNat_toUInt8, UInt32.toNat_mod, hbase, UInt8.toNat_ofNat']
  simp only [digitLoop, if_neg h0, hdig]
  rw [digit_eq hl (by omega)]

/-- **The digits are made from the last one on**, below `s`. -/
theorem says_digitLoop (hu : Usual base letBase) : ∀ {s : Nat} {u : UInt32} (l : Logger), s ≤ numBufLen →
    (Nat.digits base.toNat u.toNat).length ≤ s → ∃ l' s', digitLoop base letBase s u l = some (l', s') ∧ Says l l' [] ∧
      s' + (Nat.digits base.toNat u.toNat).length = s ∧
      l'.numBuf.slice s' (Nat.digits base.toNat u.toNat).length = digitBytes base.toNat letBase.toUInt8 u.toNat ∧
      ∀ i, s ≤ i → l'.numBuf i = l.numBuf i
  | s, u, l, hs, hlen => by
    have hu0 : u = 0 ↔ u.toNat = 0 := UInt32.toNat_inj.symm
    by_cases h0 : u = 0
    · subst h0
      exact ⟨l, s, digitLoop_zero .., .refl l, by simp, by simp, fun _ _ => rfl⟩
    · have hn : u.toNat ≠ 0 := fun h => h0 (hu0.2 h)
      have hcons := Nat.digits_eq_cons_digits_div hu.one_lt hn
      rw [hcons, List.length_cons] at hlen ⊢
      obtain ⟨s, rfl⟩ : ∃ r, s = r + 1 := ⟨s - 1, by omega⟩
      have hdiv : (u / base.toUInt32).toNat = u.toNat / base.toNat := UInt32.toNat_div ..
      obtain ⟨l', s', hrun, hsay, hs', hslice, hframe⟩ := says_digitLoop hu (s := s) (u := u / base.toUInt32)
        (l.setNum s (digitByte letBase.toUInt8 (u.toNat % base.toNat))) (by omega) (by rw [hdiv]; omega)
      rw [hdiv] at hs' hslice
      refine ⟨l', s', ?_, (says_setNum l (by omega) _).trans hsay, by omega, ?_, fun i hi => ?_⟩
      · rw [digitLoop_succ hu.letter hu.le hu.one_lt s h0]
        exact hrun
      · rw [Mem.slice_append, hslice, hs', digitBytes_succ hu.one_lt hn]
        have hlast := hframe s le_rfl
        simp [Mem.slice, hlast, Logger.setNum]
      · rw [hframe i (by omega)]
        exact Function.update_of_ne (by omega) _ _

/-- The string of the bytes `bs` without a NUL, with a NUL after them. -/
theorem numString_eq {l : Logger} {s : Nat} (hs : s + bs.length < numBufLen) (hb : l.numBuf.slice s bs.length = bs)
    (h0 : (0 : UInt8) ∉ bs) (hn : l.numBuf (s + bs.length) = 0) : l.numString s = bs := by
  obtain ⟨r, hr⟩ : ∃ r, numBufLen - s = bs.length + (1 + r) := ⟨numBufLen - s - bs.length - 1, by omega⟩
  have hone : l.numBuf.slice (s + bs.length) 1 = [0] := by simp [Mem.slice, hn]
  rw [Logger.numString, hr, Mem.slice_append, Mem.slice_append, hb, hone, List.takeWhile_append_of_pos]
  · simp
  · intro c hc
    simpa using fun h : c = 0 => h0 (h ▸ hc)

/-- No `ULONG` has more digits than there is room for. -/
theorem length_digits_le (hb : 1 < base.toNat) (u : UInt32) : (Nat.digits base.toNat u.toNat).length ≤ 32 := by
  rw [Nat.digits_length_le_iff hb]
  calc u.toNat < 2 ^ 32 := u.toNat_lt
    _ ≤ base.toNat ^ 32 := Nat.pow_le_pow_left hb 32

/-- The digits of a number other than zero, in `l_NumBuf` with a NUL after them. -/
theorem digits_placed (hu : Usual base letBase) (l : Logger) (h0 : u ≠ 0) :
    ∃ l' s, digitLoop base letBase 63 u (l.setNum 63 0) = some (l', s + 1) ∧ Says l l' [] ∧
      s + 1 + (numeral base.toNat letBase.toUInt8 u.toNat).length = 63 ∧
      l'.numBuf.slice (s + 1) (numeral base.toNat letBase.toUInt8 u.toNat).length =
        numeral base.toNat letBase.toUInt8 u.toNat ∧
      l'.numBuf 63 = 0 := by
  have hn : u.toNat ≠ 0 := fun h => h0 (UInt32.toNat_inj.1 h)
  have hle := length_digits_le hu.one_lt u
  obtain ⟨l', s', hrun, hsay, hs', hslice, hframe⟩ :=
    says_digitLoop hu (s := 63) (u := u) (l.setNum 63 0) (by decide) (by omega)
  have hnum : numeral base.toNat letBase.toUInt8 u.toNat = digitBytes base.toNat letBase.toUInt8 u.toNat := if_neg hn
  rw [hnum, length_digitBytes]
  obtain ⟨s, rfl⟩ : ∃ s, s' = s + 1 := ⟨s' - 1, by omega⟩
  refine ⟨l', s, hrun, (says_setNum l (by decide) 0).trans hsay, hs', hslice, ?_⟩
  rw [hframe 63 le_rfl, setNum_self]

theorem zero_notMem_digits (hu : Usual base letBase) (n : Nat) : 0 ∉ numeral base.toNat letBase.toUInt8 n :=
  zero_notMem_numeral hu.one_lt (hu.le.trans (by decide)) hu.isLetter n

/-- A negative number in base ten, with its sign. -/
theorem logNumber_neg (hu : Usual base letBase) (l : Logger) {v : Int32} (width : UInt16) {flags : UInt16}
    (hneg : flags &&& signed ≠ 0 ∧ base = 10 ∧ v < 0) (h0 : v ≠ 0) :
    ∃ l', logNumber l v base width flags letBase = some l' ∧
      Says l l' (stringText (numberText v base flags letBase) width flags) := by
  have hu0 : (-v).toUInt32 ≠ 0 := by
    intro h
    have hv : -v = 0 := congrArg UInt32.toInt32 h
    exact Int32.neg_ne_zero.2 h0 hv
  obtain ⟨l', s, hrun, hsay, hs, hslice, hend⟩ := digits_placed hu l hu0
  have htext : numberText v base flags letBase =
      chr '-' :: numeral base.toNat letBase.toUInt8 (-v).toUInt32.toNat := if_pos hneg
  have hstr : (l'.setNum s (chr '-')).numString s = numberText v base flags letBase := by
    rw [htext]
    refine numString_eq (by rw [List.length_cons]; show _ < 64; omega) ?_ ?_ ?_
    · have hrest : (l'.setNum s (chr '-')).numBuf.slice (s + 1)
          (numeral base.toNat letBase.toUInt8 (-v).toUInt32.toNat).length =
            numeral base.toNat letBase.toUInt8 (-v).toUInt32.toNat := by
        refine Eq.trans (Mem.slice_congr fun i _ => ?_) hslice
        exact setNum_of_ne l' (by omega) _
      rw [List.length_cons, Nat.add_comm, Mem.slice_append, hrest]
      simp [Mem.slice]
    · rw [List.mem_cons, not_or]
      exact ⟨by decide, zero_notMem_digits hu _⟩
    · rw [List.length_cons, show s + (_ + 1) = 63 by omega, setNum_of_ne l' (by omega), hend]
  refine ⟨logString (l'.setNum s (chr '-')) (numberText v base flags letBase) width flags, ?_, ?_⟩
  · rw [logNumber, if_neg h0]
    simp only [if_pos hneg, show numBufLen - 1 = 63 from rfl, hrun, Option.bind_some, hstr]
  · exact (hsay.trans (says_setNum l' (by show s < 64; omega) _)).trans (says_logString _ _ _ _)

/-- Any other number. -/
theorem logNumber_pos (hu : Usual base letBase) (l : Logger) {v : Int32} (width : UInt16) {flags : UInt16}
    (hneg : ¬(flags &&& signed ≠ 0 ∧ base = 10 ∧ v < 0)) (h0 : v ≠ 0) :
    ∃ l', logNumber l v base width flags letBase = some l' ∧
      Says l l' (stringText (numberText v base flags letBase) width flags) := by
  have hu0 : v.toUInt32 ≠ 0 := by
    intro h
    have hv : v = 0 := congrArg UInt32.toInt32 h
    exact h0 hv
  obtain ⟨l', s, hrun, hsay, hs, hslice, hend⟩ := digits_placed hu l hu0
  have htext : numberText v base flags letBase = numeral base.toNat letBase.toUInt8 v.toUInt32.toNat := if_neg hneg
  have hstr : l'.numString (s + 1) = numberText v base flags letBase := by
    rw [htext]
    refine numString_eq (by show _ < 64; omega) hslice (zero_notMem_digits hu _) ?_
    rw [hs, hend]
  refine ⟨logString l' (numberText v base flags letBase) width flags, ?_, ?_⟩
  · rw [logNumber, if_neg h0]
    simp only [if_neg hneg, show numBufLen - 1 = 63 from rfl, hrun, Option.bind_some, hstr]
  · exact hsay.trans (says_logString _ _ _ _)

/-- **A number is said as its numeral, with its padding.** -/
theorem says_logNumber (hu : Usual base letBase) (l : Logger) (v : Int32) (width flags : UInt16) :
    ∃ l', logNumber l v base width flags letBase = some l' ∧
      Says l l' (stringText (numberText v base flags letBase) width flags) := by
  by_cases h0 : v = 0
  · have hstr : ((l.setNum 0 (chr '0')).setNum 1 0).numString 0 = [chr '0'] :=
      numString_eq (by decide) (by simp [Mem.slice, Logger.setNum]) (by decide) (by simp [Logger.setNum])
    have htext : numberText v base flags letBase = [chr '0'] := by
      rw [numberText, if_neg (fun h => absurd h.2.2 (by rw [h0]; decide)), h0]
      rfl
    refine ⟨_, by rw [logNumber, if_pos h0], ?_⟩
    rw [hstr, htext]
    exact ((says_setNum l (by decide) _).trans (says_setNum _ (by decide) _)).trans (says_logString _ _ _ _)
  · by_cases hneg : flags &&& signed ≠ 0 ∧ base = 10 ∧ v < 0
    · exact logNumber_neg hu l width hneg h0
    · exact logNumber_pos hu l width hneg h0

end AmiPiBorg.Log
