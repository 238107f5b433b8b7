import AmiPiBorg.Log.Formats

/-!
# Numbers in a message

`printf` is what C makes of a number: sign and digits, padded on the left to the width. `SIGNED` is `PAD_ZERO | PAD_RIGHT`
in the source, so a `%d` is padded on the right with zeros, and a `%u` with a `0` flag is taken for signed. The formatter
says the text of `printf` exactly where neither shows (`Rendered`, `formatTurn_printf_iff`).
-/

set_option autoImplicit false

namespace AmiPiBorg.Log

open ProgLib ProgLib.Numerals

/-- The conversions of numbers. -/
inductive NumConv
  | d
  | u
  | x
  | X
deriving DecidableEq, Repr

namespace NumConv

/-- The byte of a conversion. -/
def byte : NumConv → UInt8
  | d => chr 'd'
  | u => chr 'u'
  | x => chr 'x'
  | X => chr 'X'

def base : NumConv → Nat
  | d | u => 10
  | x | X => 16

/-- The digit after nine. -/
def letter : NumConv → UInt8
  | d | u | x => chr 'a'
  | X => chr 'A'

/-- The number that a 32-bit value stands for. -/
def value : NumConv → UInt32 → Int
  | d, v => v.toInt32.toInt
  | _, v => v.toNat

def sign (k : NumConv) (v : UInt32) : List UInt8 := if k.value v < 0 then [chr '-'] else []

def digits (k : NumConv) (v : UInt32) : List UInt8 := numeral k.base k.letter (k.value v).natAbs

end NumConv

/-- What `printf` makes of a number. -/
def printf (k : NumConv) (zero : Bool) (width : Nat) (v : UInt32) : List UInt8 :=
  field zero width (k.sign v) (k.digits v)

/-- The width fits in 16 bits; a `%d` is not padded, or it is padded with zeros and is zero itself; and a `%u` with a `0`
flag is below `2 ^ 31`. -/
def Rendered (k : NumConv) (zero : Bool) (width : Nat) (v : UInt32) : Prop :=
  width < 65536 ∧
    match k with
    | .d => width ≤ (k.sign v).length + (k.digits v).length ∨ zero = true ∧ v = 0
    | .u => ¬(zero = true ∧ 2147483648 ≤ v.toNat)
    | .x | .X => True

/-- The bytes of a directive, with so many `0`s and no width if it is zero. -/
def directiveBytes (k : NumConv) (zeros width : Nat) : List UInt8 :=
  chr '%' :: (List.replicate zeros (chr '0') ++ (digitBytes 10 (chr 'a') width ++ [k.byte]))

variable {k : NumConv} {zero : Bool} {zeros width : Nat} {v : UInt32}

/-! ## The numerals -/

namespace NumConv

theorem one_lt_base (k : NumConv) : 1 < k.base := by cases k <;> decide

theorem base_le (k : NumConv) : k.base ≤ 36 := by cases k <;> decide

theorem isLetter (k : NumConv) : Letter k.letter := by cases k <;> exact ⟨by decide, by decide⟩

theorem natAbs_value_lt (k : NumConv) (v : UInt32) : (k.value v).natAbs < 4294967296 := by
  have h := v.toNat_lt
  cases k with
  | d =>
    have h₁ := v.toInt32.toInt_lt
    have h₂ := v.toInt32.le_toInt
    show (v.toInt32.toInt).natAbs < _
    omega
  | u | x | X =>
    show ((v.toNat : Int)).natAbs < _
    omega

theorem length_digits_le (k : NumConv) (v : UInt32) : (k.digits v).length ≤ 32 := by
  refine length_numeral_le k.one_lt_base (by decide) ((k.natAbs_value_lt v).trans_le ?_)
  exact (show 4294967296 = 2 ^ 32 by norm_num).le.trans (Nat.pow_le_pow_left k.one_lt_base 32)

theorem length_sign_le (k : NumConv) (v : UInt32) : (k.sign v).length ≤ 1 := by
  unfold sign
  split <;> simp

theorem value_eq_zero_iff (k : NumConv) (v : UInt32) : (k.value v).natAbs = 0 ↔ v = 0 := by
  have hz : v = 0 ↔ v.toNat = 0 := UInt32.toNat_inj.symm
  cases k with
  | d =>
    rw [Int.natAbs_eq_zero, hz]
    show v.toBitVec.toInt = 0 ↔ v.toBitVec.toNat = 0
    have := v.toBitVec.isLt
    rw [BitVec.toInt_eq_toNat_cond]
    split <;> omega
  | u | x | X =>
    rw [Int.natAbs_eq_zero, hz]
    exact Int.natCast_eq_zero

/-- **The digits read back** as the number without its sign, and there is none too many. -/
theorem digits_spec (k : NumConv) (v : UInt32) : readBack k.base k.letter (k.digits v) = (k.value v).natAbs ∧
    (v ≠ 0 → ∃ c s, k.digits v = c :: s ∧ c ≠ chr '0') ∧ (v = 0 → k.digits v = [chr '0']) := by
  refine ⟨readBack_numeral k.one_lt_base k.base_le k.isLetter _, fun hv => ?_, fun hv => ?_⟩
  · exact head?_numeral k.one_lt_base k.base_le k.isLetter fun h => hv ((k.value_eq_zero_iff v).1 h)
  · exact if_pos ((k.value_eq_zero_iff v).2 hv)

end NumConv

theorem toInt32_neg_iff (v : UInt32) : v.toInt32 < 0 ↔ 2147483648 ≤ v.toNat := by
  have h : v.toInt32.toInt = v.toBitVec.toInt := rfl
  have hn : v.toBitVec.toNat = v.toNat := rfl
  have hlt := v.toNat_lt
  rw [Int32.lt_iff_toInt_lt, h, BitVec.toInt_eq_toNat_cond, hn]
  show ite _ _ _ < (0 : Int) ↔ _
  split <;> omega

/-- The negation of a negative number, which is right for the least one, too. -/
theorem natAbs_toInt32 (v : UInt32) :
    (v.toInt32.toInt).natAbs = if v.toInt32 < 0 then (-v.toInt32).toUInt32.toNat else v.toInt32.toUInt32.toNat := by
  have h : v.toInt32.toInt = v.toBitVec.toInt := rfl
  have hn : v.toBitVec.toNat = v.toNat := rfl
  have hlt := v.toNat_lt
  have hneg : (-v.toInt32).toUInt32.toNat = (4294967296 - v.toNat) % 4294967296 := UInt32.toNat_neg v
  have hpos : v.toInt32.toUInt32.toNat = v.toNat := rfl
  simp only [toInt32_neg_iff, hneg, hpos, h, BitVec.toInt_eq_toNat_cond, hn]
  split <;> split <;> omega

/-- The numeral of a `%d`, whatever the flags. -/
theorem numberText_signed (v : UInt32) {flags : UInt16} (hf : flags &&& signed ≠ 0) :
    numberText v.toInt32 10 flags 97 = NumConv.sign .d v ++ NumConv.digits .d v := by
  have hlt : v.toInt32 < 0 ↔ NumConv.value .d v < 0 := Int32.lt_iff_toInt_lt
  have habs := natAbs_toInt32 v
  by_cases hneg : v.toInt32 < 0
  · rw [if_pos hneg] at habs
    rw [numberText, if_pos ⟨hf, rfl, hneg⟩, NumConv.sign, if_pos (hlt.1 hneg), NumConv.digits, NumConv.value, habs]
    rfl
  · rw [if_neg hneg] at habs
    rw [numberText, if_neg fun h => hneg h.2.2, NumConv.sign, if_neg fun h => hneg (hlt.2 h), NumConv.digits,
      NumConv.value, habs]
    rfl

/-- The numeral of an unsigned number that is not taken for signed. -/
theorem numberText_unsigned (v : UInt32) {base flags : UInt16} {letBase : Int8}
    (hf : ¬(flags &&& signed ≠ 0 ∧ base = 10 ∧ v.toInt32 < 0)) :
    numberText v.toInt32 base flags letBase = numeral base.toNat letBase.toUInt8 v.toNat := if_neg hf

theorem sign_unsigned (hk : k ≠ .d) (v : UInt32) : k.sign v = [] := by
  have hnn : ¬k.value v < 0 := by
    cases k with
    | d => exact absurd rfl hk
    | u | x | X => exact Int.not_lt.2 (Int.natCast_nonneg v.toNat)
  rw [NumConv.sign, if_neg hnn]

/-! ## Padding -/

theorem stringText_left (s : List UInt8) (zero : Bool) (hw : width < 65536) (hs : s.length < 65536) :
    stringText s (UInt16.ofNat width) (flagsOf zero) = field zero width [] s := by
  have hwid : (UInt16.ofNat width).toNat = width := by rw [UInt16.toNat_ofNat', Nat.mod_eq_of_lt hw]
  simp only [stringText, field, hwid, Nat.mod_eq_of_lt hs, List.length_nil, Nat.zero_add, List.nil_append]
  cases zero
  · rfl
  · rfl

/-- With the bits of `SIGNED`, a text is padded on the right with zeros. -/
theorem stringText_right (s : List UInt8) (zero : Bool) (hw : width < 65536) (hs : s.length < 65536) :
    stringText s (UInt16.ofNat width) (flagsOf zero ||| signed) =
      s ++ List.replicate (width - s.length) (chr '0') := by
  have hwid : (UInt16.ofNat width).toNat = width := by rw [UInt16.toNat_ofNat', Nat.mod_eq_of_lt hw]
  have hf : flagsOf zero ||| signed = 3 := by cases zero <;> rfl
  rw [hf, stringText, hwid, Nat.mod_eq_of_lt hs]
  rfl

/-- Text and padding fit in 16 bits. -/
theorem length_stringText_lt (s : List UInt8) (width flags : UInt16) (hs : s.length < 65536) :
    (stringText s width flags).length < 65536 := by
  have hlt := width.toNat_lt
  have hlen : (stringText s width flags).length = max width.toNat s.length := by
    by_cases hf : flags &&& padRight = 0
    · simp only [stringText, if_pos hf, List.length_append, List.length_replicate, Nat.mod_eq_of_lt hs]
      omega
    · simp only [stringText, if_neg hf, List.length_append, List.length_replicate, Nat.mod_eq_of_lt hs]
      omega
  omega

/-! ## The two texts -/

/-- Zeros behind a numeral are not zeros in front of it, unless it is zero. -/
theorem zeros_behind_ne {p : Nat} (hp : p ≠ 0) (hv : v ≠ 0) (k : NumConv) :
    List.replicate p (chr '0') ++ k.digits v ≠ k.digits v ++ List.replicate p (chr '0') := by
  obtain ⟨c, s, hcs, hc⟩ := k.digits_spec v |>.2.1 hv
  obtain ⟨p, rfl⟩ : ∃ q, p = q + 1 := ⟨p - 1, by omega⟩
  rw [hcs, List.replicate_succ]
  intro h
  exact hc (List.cons.inj h).1.symm

theorem le_of_mem_digits {c : UInt8} (h : c ∈ k.digits v) : 48 ≤ c.toNat :=
  le_of_mem_numeral k.one_lt_base k.base_le k.isLetter h

theorem space_notMem (k : NumConv) (v : UInt32) : chr ' ' ∉ k.sign v ++ k.digits v := by
  rw [List.mem_append, not_or]
  constructor
  · unfold NumConv.sign
    split
    · decide
    · simp
  · exact fun h => absurd (le_of_mem_digits h) (by decide)

/-- **The text of a `%d`** is padded on the wrong side. -/
theorem signed_eq_iff (zero : Bool) (hw : width < 65536) (v : UInt32) :
    NumConv.sign .d v ++ NumConv.digits .d v ++
        List.replicate (width - (NumConv.sign .d v ++ NumConv.digits .d v).length) (chr '0') =
      printf .d zero width v ↔ Rendered .d zero width v := by
  rw [List.length_append]
  generalize hp : width - ((NumConv.sign .d v).length + (NumConv.digits .d v).length) = p
  have hrend : Rendered .d zero width v ↔ p = 0 ∨ zero = true ∧ v = 0 := by
    simp only [Rendered, hw, true_and, ← hp, Nat.sub_eq_zero_iff_le]
  simp only [hrend, printf, field, hp]
  by_cases h0 : p = 0
  · subst h0
    simp
  cases zero with
  | false =>
    simp only [h0, Bool.false_eq_true, false_and, or_self, iff_false, if_false]
    intro h
    have hmem : chr ' ' ∈ List.replicate p (32 : UInt8) ++ (NumConv.sign .d v ++ NumConv.digits .d v) :=
      List.mem_append_left _ (List.mem_replicate.2 ⟨h0, rfl⟩)
    rw [← h, List.mem_append] at hmem
    rcases hmem with hmem | hmem
    · exact space_notMem .d v hmem
    · exact absurd (List.eq_of_mem_replicate hmem) (by decide)
  | true =>
    simp only [h0, true_and, false_or, if_true, List.append_assoc, List.append_cancel_left_eq]
    by_cases hv : v = 0
    · have hd := (NumConv.digits_spec .d v).2.2 hv
      simp only [hv, iff_true]
      rw [hv] at hd
      rw [hd]
      exact List.replicate_succ'.symm.trans List.replicate_succ |>.symm
    · simp only [hv, iff_false]
      exact fun h => zeros_behind_ne h0 hv .d h.symm

/-- The text of an unsigned number that is taken for a negative one has a sign. -/
theorem unsigned_ne (s : List UInt8) (width : Nat) (w flags : UInt16) (hk : k ≠ .d) :
    stringText (chr '-' :: s) w flags ≠ printf k true width v := by
  intro h
  have hmem : chr '-' ∈ stringText (chr '-' :: s) w flags := by
    by_cases hf : flags &&& padRight = 0
    · simp only [stringText, if_pos hf, List.mem_append, List.mem_cons_self, or_true]
    · simp only [stringText, if_neg hf, List.mem_append, List.mem_cons_self, true_or]
  rw [h, printf, sign_unsigned hk, field, if_pos rfl, List.nil_append, List.mem_append] at hmem
  rcases hmem with hmem | hmem
  · exact absurd (List.eq_of_mem_replicate hmem) (by decide)
  · exact absurd (le_of_mem_digits hmem) (by decide)

theorem length_printf (k : NumConv) (zero : Bool) (width : Nat) (v : UInt32) :
    (printf k zero width v).length = max width ((k.sign v).length + (k.digits v).length) := length_field ..

/-- The text that is padded is short. -/
theorem length_numberText_le (v : Int32) {base : UInt16} (hb : 1 < base.toNat) (flags : UInt16) (letBase : Int8) :
    (numberText v base flags letBase).length ≤ 33 := by
  have hlen : ∀ u : UInt32, (numeral base.toNat letBase.toUInt8 u.toNat).length ≤ 32 := fun u =>
    length_numeral_le hb (by decide) (u.toNat_lt.trans_le (Nat.pow_le_pow_left hb 32))
  unfold numberText
  split
  · rw [List.length_cons]
    have := hlen (-v).toUInt32
    omega
  · exact (hlen _).trans (by decide)

theorem conversionText_eq (strings : Strings) (k : NumConv) (zero : Bool) (width : Nat) (v : UInt32) :
    conversionText strings zero width k.byte v = match k with
      | .d => stringText (NumConv.sign .d v ++ NumConv.digits .d v) (UInt16.ofNat width) (flagsOf zero ||| signed)
      | .u => stringText (numberText v.toInt32 10 (flagsOf zero) 97) (UInt16.ofNat width) (flagsOf zero)
      | .x => stringText (NumConv.digits .x v) (UInt16.ofNat width) (flagsOf zero)
      | .X => stringText (NumConv.digits .X v) (UInt16.ofNat width) (flagsOf zero) := by
  have hsigned : flagsOf zero ||| signed = 3 := by cases zero <;> rfl
  have h16 : ∀ letBase, numberText v.toInt32 16 (flagsOf zero) letBase = numeral 16 letBase.toUInt8 v.toNat :=
    fun _ => numberText_unsigned v fun h => absurd h.2.1 (by decide)
  cases k with
  | d => exact congrArg (stringText · _ _) (numberText_signed v (by rw [hsigned]; decide))
  | u => rfl
  | x => exact congrArg (stringText · _ _) (h16 97)
  | X => exact congrArg (stringText · _ _) (h16 65)

theorem length_content_le (k : NumConv) (v : UInt32) : (k.sign v ++ k.digits v).length ≤ 33 := by
  have h₁ := k.length_sign_le v
  have h₂ := k.length_digits_le v
  rw [List.length_append]
  omega

/-- A width of more than 16 bits is not met. -/
theorem width_lt_of_eq {strings : Strings}
    (h : conversionText strings zero width k.byte v = printf k zero width v) : width < 65536 := by
  have hlen := length_printf k zero width v
  rw [← h, conversionText_eq] at hlen
  have hlt : ∀ s w f, s.length ≤ 33 → (stringText s w f).length = max width ((k.sign v).length + (k.digits v).length) →
      width < 65536 := by
    intro s w f hs he
    have := length_stringText_lt s w f (by omega)
    omega
  cases k with
  | d => exact hlt _ _ _ (length_content_le .d v) hlen
  | u => exact hlt _ _ _ (length_numberText_le _ (by decide) _ _) hlen
  | x => exact hlt _ _ _ ((NumConv.length_digits_le .x v).trans (by decide)) hlen
  | X => exact hlt _ _ _ ((NumConv.length_digits_le .X v).trans (by decide)) hlen

/-- The text of an unsigned number that is not taken for signed. -/
theorem unsigned_eq (zero : Bool) (hw : width < 65536) (hk : k ≠ .d) (v : UInt32) :
    stringText (k.digits v) (UInt16.ofNat width) (flagsOf zero) = printf k zero width v := by
  have hlen := k.length_digits_le v
  rw [stringText_left _ zero hw (by omega), printf, sign_unsigned hk]

/-- **The text of a number is that of `printf`** exactly where it is rendered right. -/
theorem conversionText_eq_iff (strings : Strings) (k : NumConv) (zero : Bool) (width : Nat) (v : UInt32) :
    conversionText strings zero width k.byte v = printf k zero width v ↔ Rendered k zero width v := by
  by_cases hw : width < 65536
  · rw [conversionText_eq]
    cases k with
    | d =>
      have hlen := length_content_le .d v
      rw [← signed_eq_iff zero hw, stringText_right _ zero hw (by omega)]
    | u =>
      have hneg := toInt32_neg_iff v
      by_cases hbad : zero = true ∧ 2147483648 ≤ v.toNat
      · have hrend : ¬Rendered .u zero width v := fun h => h.2 hbad
        obtain ⟨rfl, hv⟩ := hbad
        have htext : numberText v.toInt32 10 (flagsOf true) 97 = chr '-' :: numeral 10 97 (-v.toInt32).toUInt32.toNat :=
          if_pos ⟨by decide, rfl, hneg.2 hv⟩
        simp only [hrend, iff_false, htext]
        exact unsigned_ne _ _ _ _ (by decide)
      · have hrend : Rendered .u zero width v := ⟨hw, hbad⟩
        have htext : numberText v.toInt32 10 (flagsOf zero) 97 = NumConv.digits .u v := by
          refine numberText_unsigned v fun h => hbad ⟨?_, hneg.1 h.2.2⟩
          cases zero with
          | false => exact absurd rfl h.1
          | true => rfl
        simp only [hrend, iff_true, htext]
        exact unsigned_eq zero hw (by decide) v
    | x => exact ⟨fun _ => ⟨hw, trivial⟩, fun _ => unsigned_eq zero hw (by decide) v⟩
    | X => exact ⟨fun _ => ⟨hw, trivial⟩, fun _ => unsigned_eq zero hw (by decide) v⟩
  · exact ⟨fun h => absurd (width_lt_of_eq h) hw, fun h => absurd h.1 hw⟩

/-! ## In the format -/

theorem flagLoop_replicate {c : UInt8} (hc : c ≠ chr '0') (fmt : List UInt8) (zero : Bool) (n : Nat) :
    flagLoop (flagsOf zero) (List.replicate n (chr '0') ++ c :: fmt) =
      some (flagsOf (zero || decide (n ≠ 0)), c :: fmt) := by
  induction n generalizing zero with
  | zero =>
    rw [List.replicate_zero, List.nil_append, flagLoop, if_neg hc]
    simp
  | succ n ih =>
    have hflags : flagsOf zero ||| padZero = flagsOf true := by cases zero <;> rfl
    rw [List.replicate_succ, List.cons_append, flagLoop, if_pos rfl, hflags, ih]
    simp

theorem widthLoop_digits {c : UInt8} (hc : ¬IsDigit c) (fmt : List UInt8) {ds : List UInt8} (hd : ∀ d ∈ ds, IsDigit d)
    (width : Nat) :
    widthLoop (UInt16.ofNat width) (ds ++ c :: fmt) = some (UInt16.ofNat (readFrom 10 (chr 'a') width ds), c :: fmt) := by
  induction ds generalizing width with
  | nil => rw [List.nil_append, widthLoop, if_neg hc, readFrom, List.foldl_nil]
  | cons d ds ih =>
    have hdd := hd d List.mem_cons_self
    have hval : byteDigit (chr 'a') d = d.toNat - 48 := by
      have h9 : d.toNat ≤ 57 := UInt8.le_iff_toNat_le.1 hdd.2
      rw [byteDigit, if_pos (by omega)]
    rw [List.cons_append, widthLoop, if_pos hdd, width_digit hdd, ih fun e he => hd e (List.mem_cons_of_mem d he)]
    rw [readFrom, readFrom, List.foldl_cons, hval]

theorem letter_a : Letter (chr 'a') := ⟨by decide, by decide⟩

theorem isDigit_of_mem {d : UInt8} (h : d ∈ digitBytes 10 (chr 'a') width) : IsDigit d := by
  obtain ⟨n, hn, rfl⟩ := List.mem_map.1 h
  have hlt := Nat.digits_lt_base (by decide) (List.mem_reverse.1 hn)
  have ht := toNat_digitByte letter_a (show n < 36 by omega)
  rw [if_pos hlt] at ht
  constructor
  · rw [UInt8.le_iff_toNat_le, ht]
    show 48 ≤ 48 + n
    omega
  · rw [UInt8.le_iff_toNat_le, ht]
    show 48 + n ≤ 57
    omega

theorem not_isDigit_byte (k : NumConv) : ¬IsDigit k.byte := by cases k <;> decide

/-- The first byte of the width, or the conversion where there is none, begins no flag and no other directive. -/
theorem width_cons (k : NumConv) (width : Nat) (rest : List UInt8) :
    ∃ c fmt, digitBytes 10 (chr 'a') width ++ [k.byte] ++ rest = c :: fmt ∧ c ≠ chr '0' ∧ c ≠ 0 ∧ c ≠ chr '%' := by
  by_cases hw : width = 0
  · refine ⟨k.byte, rest, ?_, ?_⟩
    · rw [hw, digitBytes_zero]
      rfl
    · cases k <;> decide
  · obtain ⟨c, s, hcs, hc⟩ := head?_numeral (b := 10) (by decide) (by decide) letter_a hw
    rw [numeral, if_neg hw] at hcs
    have hdigit : IsDigit c := isDigit_of_mem (show c ∈ digitBytes 10 (chr 'a') width by rw [hcs]; exact List.mem_cons_self)
    refine ⟨c, s ++ [k.byte] ++ rest, by rw [hcs]; rfl, hc, fun h => ?_, ne_percent_of_digit hdigit⟩
    exact absurd (h ▸ hdigit) (by decide)

/-- **A directive of this form** makes the formatter convert the next argument. -/
theorem formatTurn_directiveBytes (strings : Strings) (l : Logger) (k : NumConv) (zeros width : Nat) (v : UInt32)
    (rest : List UInt8) (aa : List UInt32) :
    formatTurn strings (l, directiveBytes k zeros width ++ rest, v :: aa) =
      (convert strings l k.byte (UInt16.ofNat width) (flagsOf (decide (zeros ≠ 0))) (v :: aa)).map
        fun r => .again (r.1, rest, r.2) := by
  obtain ⟨c, fmt, hcons, hc, h0, hp⟩ := width_cons k width rest
  have htail : directiveBytes k zeros width ++ rest = chr '%' :: (List.replicate zeros (chr '0') ++ c :: fmt) := by
    rw [← hcons]
    simp [directiveBytes]
  have hflag : flagLoop 0 (List.replicate zeros (chr '0') ++ c :: fmt) = some (flagsOf (decide (zeros ≠ 0)), c :: fmt) :=
    flagLoop_replicate hc fmt false zeros
  have hwidth : widthLoop 0 (c :: fmt) = some (UInt16.ofNat width, k.byte :: rest) := by
    have hd : ∀ d ∈ digitBytes 10 (chr 'a') width, IsDigit d := fun d => isDigit_of_mem
    have h := widthLoop_digits (not_isDigit_byte k) rest hd 0
    rw [← readBack, readBack_digitBytes (by decide) (by decide) letter_a] at h
    rw [← hcons, List.append_assoc]
    exact h
  have hturn : formatTurn strings (l, chr '%' :: (List.replicate zeros (chr '0') ++ c :: fmt), v :: aa) =
      directive strings l (List.replicate zeros (chr '0') ++ c :: fmt) (v :: aa) := by
    cases zeros with
    | zero => exact formatTurn_directive strings h0 hp ..
    | succ n => exact formatTurn_directive strings (by decide) (by decide) ..
  rw [htail, hturn, directive, hflag, Option.bind_some, hwidth, Option.bind_some]

theorem takesArg_byte (k : NumConv) : TakesArg k.byte := by cases k <;> decide

/-- What the formatter says at a directive is the text of the conversion. -/
theorem formatTurn_said_iff (strings : Strings) (l : Logger) (k : NumConv) (zeros width : Nat) (v : UInt32)
    (rest : List UInt8) (aa : List UInt32) (bs : List UInt8) :
    (∃ l', formatTurn strings (l, directiveBytes k zeros width ++ rest, v :: aa) = some (.again (l', rest, aa)) ∧
      l'.said = l.said ++ bs) ↔ conversionText strings (decide (zeros ≠ 0)) width k.byte v = bs := by
  obtain ⟨l', hconv, hsay⟩ := says_convert strings (takesArg_byte k) l (decide (zeros ≠ 0)) width v aa
  rw [formatTurn_directiveBytes, hconv, Option.map_some]
  constructor
  · rintro ⟨l'', hl, hs⟩
    cases hl
    exact List.append_cancel_left (hsay.said.symm.trans hs)
  · intro h
    exact ⟨l', rfl, by rw [hsay.said, h]⟩

/-- **A number is rendered as by `printf`** exactly if its width fits in 16 bits and, for a `%d`, it is not padded or is
a zero padded with zeros, or, for a `%u`, it has no `0` flag or is below `2 ^ 31`. -/
theorem formatTurn_printf_iff (strings : Strings) (l : Logger) (k : NumConv) (zeros width : Nat) (v : UInt32)
    (rest : List UInt8) (aa : List UInt32) :
    (∃ l', formatTurn strings (l, directiveBytes k zeros width ++ rest, v :: aa) = some (.again (l', rest, aa)) ∧
      l'.said = l.said ++ printf k (decide (zeros ≠ 0)) width v) ↔ Rendered k (decide (zeros ≠ 0)) width v :=
  (formatTurn_said_iff strings l k zeros width v rest aa _).trans (conversionText_eq_iff strings k _ width v)

/-- `%5d` of `42` is padded on the right with zeros, and `%012u` of `3000000000` has a sign. -/
theorem formatTurn_ne_printf :
    conversionText (fun _ => []) false 5 (chr 'd') 42 = chrs "42000" ∧ printf .d false 5 42 = chrs "   42" ∧
    conversionText (fun _ => []) true 12 (chr 'u') 3000000000 = chrs "0-1294967296" ∧
    printf .u true 12 3000000000 = chrs "003000000000" ∧
    ¬ ∀ (strings : Strings) (l : Logger) (k : NumConv) (zeros width : Nat) (v : UInt32) (rest : List UInt8)
      (aa : List UInt32), ∃ l', formatTurn strings (l, directiveBytes k zeros width ++ rest, v :: aa) =
        some (.again (l', rest, aa)) ∧ l'.said = l.said ++ printf k (decide (zeros ≠ 0)) width v := by
  refine ⟨by decide +kernel, by decide +kernel, by decide +kernel, by decide +kernel, fun h => ?_⟩
  have hl := h (fun _ => []) ⟨true, 20, fun _ => 0, 0, fun _ => 0, [], []⟩ .d 0 5 42 [0] []
  rw [formatTurn_said_iff] at hl
  exact absurd hl (by decide +kernel)

end AmiPiBorg.Log
