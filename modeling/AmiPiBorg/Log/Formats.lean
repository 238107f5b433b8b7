import AmiPiBorg.Log.Texts

/-!
# What a format asks for

A format is read a byte at a time (`Mode.next`) as bytes that stand for themselves and conversions, each of which takes
one argument (`items`). The formatter says just that (`run_format`), unless the format is cut off behind the `0` or a
digit of a directive (`Complete`): then it steps over the NUL and reads on.
-/

set_option autoImplicit false

namespace AmiPiBorg.Log

open ProgLib ProgLib.Numerals

/-! ## Reading a format -/

/-- Where in a format: in the text, or in a directive, with whether a `0` or a digit has been read, whether there is a
`0` flag, and the width so far. -/
inductive Mode
  | text
  | directive (begun zero : Bool) (width : Nat)
deriving DecidableEq, Repr

/-- What a format asks for: a byte, or an argument with its flag, width and conversion. -/
inductive Item
  | byte (c : UInt8)
  | conversion (zero : Bool) (width : Nat) (c : UInt8)
deriving DecidableEq, Repr

abbrev IsDigit (c : UInt8) : Prop := chr '0' ≤ c ∧ c ≤ chr '9'

/-- The conversions, each of which takes an argument. -/
abbrev TakesArg (c : UInt8) : Prop := c ∈ chrs "duxXcs"

/-- The mode after a byte. -/
def Mode.next : Mode → UInt8 → Mode
  | .text, c => if c = chr '%' then .directive false false 0 else .text
  | .directive begun zero width, c =>
    if c = chr '%' ∧ begun = false then .text
    else if c = chr '0' ∧ width = 0 then .directive true true 0
    else if IsDigit c then .directive true zero (width * 10 + (c.toNat - 48))
    else .text

/-- What a byte asks for. -/
def Mode.item : Mode → UInt8 → List Item
  | .text, c => if c = chr '%' then [] else [.byte c]
  | .directive begun zero width, c =>
    if c = chr '%' ∧ begun = false then [.byte c]
    else if TakesArg c then [.conversion zero width c]
    else []

/-- What a format asks for. -/
def items : Mode → List UInt8 → List Item
  | _, [] => []
  | m, c :: fmt => m.item c ++ items (m.next c) fmt

/-- The mode at the end of a format. -/
def ending (m : Mode) (fmt : List UInt8) : Mode := fmt.foldl Mode.next m

/-- Cut off behind the `0` or a digit of a directive. -/
def Mode.Cut : Mode → Prop
  | .text => False
  | .directive begun _ _ => begun = true

instance : DecidablePred Mode.Cut
  | .text => inferInstanceAs (Decidable False)
  | .directive begun _ _ => inferInstanceAs (Decidable (begun = true))

/-- The format does not end in a `%` with `0`s or digits behind it. -/
def Complete (fmt : List UInt8) : Prop := ¬(ending .text fmt).Cut

instance : DecidablePred Complete := fun _ => inferInstanceAs (Decidable (¬_))

/-- The number of arguments that are taken. -/
def arity : List Item → Nat
  | [] => 0
  | .byte _ :: is => arity is
  | .conversion _ _ _ :: is => arity is + 1

/-! ## What is said -/

/-- The flags of a directive. -/
abbrev flagsOf (zero : Bool) : UInt16 := if zero then padZero else 0

/-- The text of one conversion. -/
def conversionText (strings : Strings) (zero : Bool) (width : Nat) (c : UInt8) (a : UInt32) : List UInt8 :=
  let w := UInt16.ofNat width
  let flags := flagsOf zero
  if c = chr 'd' then stringText (numberText a.toInt32 10 (flags ||| signed) 97) w (flags ||| signed)
  else if c = chr 'u' then stringText (numberText a.toInt32 10 flags 97) w flags
  else if c = chr 'x' then stringText (numberText a.toInt32 16 flags 97) w flags
  else if c = chr 'X' then stringText (numberText a.toInt32 16 flags 65) w flags
  else if c = chr 'c' then stringText [if a.toUInt8 < chr ' ' then chr '.' else a.toUInt8] w flags
  else stringText (strings a) w flags

/-- The text of what a format asks for, each conversion with an argument of its own, in order. -/
def itemsText (strings : Strings) : List Item → List UInt32 → List UInt8
  | [], _ => []
  | .byte c :: is, as => c :: itemsText strings is as
  | .conversion _ _ _ :: _, [] => []
  | .conversion zero width c :: is, a :: as =>
    conversionText strings zero width c a ++ itemsText strings is as

variable {strings : Strings} {l l' : Logger} {fmt rest : List UInt8} {args more aa : List UInt32} {m m' : Mode} {c : UInt8}

theorem usual_ten : Usual 10 97 := ⟨by decide, by decide, .inl rfl⟩

theorem usual_sixteen {letBase : Int8} (h : letBase = 97 ∨ letBase = 65) : Usual 16 letBase := ⟨by decide, by decide, h⟩

theorem numString_char {c : UInt8} (hl : l.numBuf 0 = c) (hc : c ≠ 0) : (l.setNum 1 0).numString 0 = [c] :=
  numString_eq (by show 0 + 1 < 64; omega) (by simp [Mem.slice, Logger.setNum, hl]) (by simpa using hc.symm)
    (by simp [Logger.setNum])

/-- The byte of a `%c`, with a dot for a control character. -/
theorem convert_char (strings : Strings) (l : Logger) (width flags : UInt16) (a : UInt32) (aa : List UInt32) :
    ∃ l', convert strings l (chr 'c') width flags (a :: aa) = some (l', aa) ∧
      Says l l' (stringText [if a.toUInt8 < chr ' ' then chr '.' else a.toUInt8] width flags) := by
  have hs := says_setNum l (i := 0) (by decide) a.toUInt8
  by_cases hlt : a.toUInt8 < chr ' '
  · have hstr := numString_char (l := (l.setNum 0 a.toUInt8).setNum 0 (chr '.')) (c := chr '.') (by simp) (by decide)
    refine ⟨_, rfl, ?_⟩
    rw [setNum_self, if_pos hlt, if_pos hlt, hstr]
    exact ((hs.trans (says_setNum _ (by decide) _)).trans (says_setNum _ (by decide) _)).trans (says_logString _ _ _ _)
  · have hne : a.toUInt8 ≠ 0 := by
      intro h
      exact hlt (by rw [h]; decide)
    have hstr := numString_char (l := l.setNum 0 a.toUInt8) (c := a.toUInt8) (by simp) hne
    refine ⟨_, rfl, ?_⟩
    rw [setNum_self, if_neg hlt, if_neg hlt, hstr]
    exact (hs.trans (says_setNum _ (by decide) _)).trans (says_logString _ _ _ _)

/-- **A conversion takes one argument** and says its text. -/
theorem says_convert (strings : Strings) (hc : TakesArg c) (l : Logger) (zero : Bool) (width : Nat) (a : UInt32) (aa : List UInt32) :
    ∃ l', convert strings l c (UInt16.ofNat width) (flagsOf zero) (a :: aa) = some (l', aa) ∧
      Says l l' (conversionText strings zero width c a) := by
  have hcases : c = chr 'd' ∨ c = chr 'u' ∨ c = chr 'x' ∨ c = chr 'X' ∨ c = chr 'c' ∨ c = chr 's' := by
    simpa [TakesArg, chrs] using hc
  rcases hcases with rfl | rfl | rfl | rfl | rfl | rfl
  · obtain ⟨l', hl', hs⟩ := says_logNumber usual_ten l a.toInt32 (UInt16.ofNat width) (flagsOf zero ||| signed)
    exact ⟨l', by simp [convert, hl'], hs⟩
  · obtain ⟨l', hl', hs⟩ := says_logNumber usual_ten l a.toInt32 (UInt16.ofNat width) (flagsOf zero)
    exact ⟨l', by simp [convert, hl'], hs⟩
  · obtain ⟨l', hl', hs⟩ := says_logNumber (usual_sixteen (.inl rfl)) l a.toInt32 (UInt16.ofNat width) (flagsOf zero)
    exact ⟨l', by simp [convert, hl'], hs⟩
  · obtain ⟨l', hl', hs⟩ := says_logNumber (usual_sixteen (.inr rfl)) l a.toInt32 (UInt16.ofNat width) (flagsOf zero)
    exact ⟨l', by simp [convert, hl'], hs⟩
  · exact convert_char strings l _ _ a aa
  · exact ⟨_, rfl, says_logString l (strings a) _ _⟩

/-- Any other byte takes no argument and says nothing. -/
theorem convert_other (hc : ¬TakesArg c) (l : Logger) (width flags : UInt16) (aa : List UInt32) :
    convert strings l c width flags aa = some (l, aa) := by
  have hcases : ¬(c = chr 'd' ∨ c = chr 'u' ∨ c = chr 'x' ∨ c = chr 'X' ∨ c = chr 'c' ∨ c = chr 's') := by
    simpa [TakesArg, chrs] using hc
  simp only [not_or] at hcases
  obtain ⟨h₁, h₂, h₃, h₄, h₅, h₆⟩ := hcases
  simp only [convert, if_neg h₁, if_neg h₂, if_neg h₃, if_neg h₄, if_neg h₅, if_neg h₆]

/-! ## A directive -/

/-- From one place of a format to another, nothing is asked for. -/
structure Skips (m : Mode) (fmt : List UInt8) (m' : Mode) (rest : List UInt8) : Prop where
  items : items m fmt = items m' rest
  ending : ending m fmt = ending m' rest
  suffix : rest <:+ fmt

theorem Skips.refl (m : Mode) (fmt : List UInt8) : Skips m fmt m fmt := ⟨rfl, rfl, List.suffix_refl _⟩

theorem Skips.trans {m'' : Mode} {rest' : List UInt8} (h : Skips m fmt m' rest) (h' : Skips m' rest m'' rest') :
    Skips m fmt m'' rest' :=
  ⟨h.items.trans h'.items, h.ending.trans h'.ending, h'.suffix.trans h.suffix⟩

theorem Skips.byte (h : m.item c = []) (fmt : List UInt8) : Skips m (c :: fmt) (m.next c) fmt :=
  ⟨by rw [Log.items, h, List.nil_append], rfl, List.suffix_cons c fmt⟩

theorem notTakesArg_of_digit (h : IsDigit c) : ¬TakesArg c := by
  have h₁ := UInt8.le_iff_toNat_le.1 h.1
  have h₂ := UInt8.le_iff_toNat_le.1 h.2
  intro hc
  have hcases : c = chr 'd' ∨ c = chr 'u' ∨ c = chr 'x' ∨ c = chr 'X' ∨ c = chr 'c' ∨ c = chr 's' := by
    simpa [TakesArg, chrs] using hc
  rcases hcases with rfl | rfl | rfl | rfl | rfl | rfl <;> revert h₂ <;> decide

theorem ne_percent_of_digit (h : IsDigit c) : c ≠ chr '%' := by
  rintro rfl
  exact absurd h (by decide)

theorem isDigit_zero : IsDigit (chr '0') := by decide

/-- A digit in a directive asks for nothing. -/
theorem item_digit (h : IsDigit c) (begun zero : Bool) (width : Nat) : (Mode.directive begun zero width).item c = [] := by
  rw [Mode.item, if_neg fun hp => ne_percent_of_digit h hp.1, if_neg (notTakesArg_of_digit h)]

/-- The value of one digit more, which wraps at 16 bits. -/
theorem width_digit (h : IsDigit c) (width : Nat) :
    UInt16.ofNat width * 10 + (c.toUInt16 - (chr '0').toUInt16) = UInt16.ofNat (width * 10 + (c.toNat - 48)) := by
  have h₁ : 48 ≤ c.toNat := UInt8.le_iff_toNat_le.1 h.1
  have hsub : c.toUInt16 - (chr '0').toUInt16 = UInt16.ofNat (c.toNat - 48) := by
    have hlt := c.toNat_lt
    have hle : (chr '0').toUInt16 ≤ c.toUInt16 := UInt16.le_iff_toNat_le.2 h₁
    rw [← UInt16.toNat_inj, UInt16.toNat_sub_of_le _ _ hle, UInt16.toNat_ofNat']
    show c.toNat - 48 = _
    omega
  rw [hsub, UInt16.ofNat_add, UInt16.ofNat_mul]
  rfl

/-- **The loop over the `0`s.** -/
theorem flagLoop_skips (fmt : List UInt8) (begun zero : Bool) : ∃ zero' begun' rest,
    flagLoop (flagsOf zero) (fmt ++ [0]) = some (flagsOf zero', rest ++ [0]) ∧
      Skips (.directive begun zero 0) fmt (.directive begun' zero' 0) rest ∧ rest.head? ≠ some (chr '0') ∧
      (begun' = true ∨ begun' = begun ∧ rest = fmt) := by
  induction fmt generalizing begun zero with
  | nil => exact ⟨zero, begun, [], rfl, .refl _ _, by simp, .inr ⟨rfl, rfl⟩⟩
  | cons c fmt ih =>
    by_cases hc : c = chr '0'
    · obtain ⟨zero', begun', rest, hloop, hskip, hhead, hb⟩ := ih true true
      have hnext : (Mode.directive begun zero 0).next c = .directive true true 0 := by
        rw [Mode.next, if_neg fun h => ne_percent_of_digit (hc ▸ isDigit_zero) h.1, if_pos ⟨hc, rfl⟩]
      have hskip' := Skips.byte (item_digit (hc ▸ isDigit_zero) begun zero 0) fmt
      rw [hnext] at hskip'
      refine ⟨zero', begun', rest, ?_, hskip'.trans hskip, hhead, .inl ?_⟩
      · rw [List.cons_append, flagLoop, if_pos hc, ← hloop]
        cases zero <;> rfl
      · rcases hb with hb | hb
        · exact hb
        · exact hb.1
    · exact ⟨zero, begun, c :: fmt, by rw [List.cons_append, flagLoop, if_neg hc], .refl _ _, by simpa using hc,
        .inr ⟨rfl, rfl⟩⟩

/-- **The loop over the digits.** -/
theorem widthLoop_skips (fmt : List UInt8) (begun zero : Bool) (width : Nat)
    (hw : width ≠ 0 ∨ fmt.head? ≠ some (chr '0')) : ∃ width' begun' rest,
    widthLoop (UInt16.ofNat width) (fmt ++ [0]) = some (UInt16.ofNat width', rest ++ [0]) ∧
      Skips (.directive begun zero width) fmt (.directive begun' zero width') rest ∧ (∀ c ∈ rest.head?, ¬IsDigit c) ∧
      (begun' = true ∨ begun' = begun ∧ rest = fmt) := by
  induction fmt generalizing begun width with
  | nil => exact ⟨width, begun, [], rfl, .refl _ _, by simp, .inr ⟨rfl, rfl⟩⟩
  | cons c fmt ih =>
    by_cases hc : IsDigit c
    · have hnz : ¬(c = chr '0' ∧ width = 0) := by
        rintro ⟨rfl, h0⟩
        exact hw.elim (fun h => h h0) fun h => h rfl
      have hpos : width * 10 + (c.toNat - 48) ≠ 0 := by
        intro h0
        have hle : 48 ≤ c.toNat := UInt8.le_iff_toNat_le.1 hc.1
        exact hnz ⟨UInt8.toNat_inj.1 (show c.toNat = 48 by omega), by omega⟩
      obtain ⟨width', begun', rest, hloop, hskip, hhead, hb⟩ := ih true (width * 10 + (c.toNat - 48)) (.inl hpos)
      have hnext : (Mode.directive begun zero width).next c = .directive true zero (width * 10 + (c.toNat - 48)) := by
        rw [Mode.next, if_neg fun h => ne_percent_of_digit hc h.1, if_neg hnz, if_pos hc]
      have hskip' := Skips.byte (item_digit hc begun zero width) fmt
      rw [hnext] at hskip'
      refine ⟨width', begun', rest, ?_, hskip'.trans hskip, hhead, .inl ?_⟩
      · rw [List.cons_append, widthLoop, if_pos hc, width_digit hc]
        exact hloop
      · rcases hb with hb | hb
        · exact hb
        · exact hb.1
    · exact ⟨width, begun, c :: fmt, by rw [List.cons_append, widthLoop, if_neg hc], .refl _ _, by simpa using hc,
        .inr ⟨rfl, rfl⟩⟩

/-- What is not a digit, and no `%` in front of which nothing was read, ends a directive. -/
theorem Mode.next_conversion {begun zero : Bool} {width : Nat} (hpc : ¬(c = chr '%' ∧ begun = false))
    (hdigit : ¬IsDigit c) : (Mode.directive begun zero width).next c = .text := by
  have hz : ¬(c = chr '0' ∧ width = 0) := by
    rintro ⟨rfl, -⟩
    exact hdigit isDigit_zero
  rw [Mode.next, if_neg hpc, if_neg hz, if_neg hdigit]

/-- A directive, once its flags and its width are known, and the byte `c` comes next. -/
theorem directive_eq {rest₁ rest₂ : List UInt8} {flags width : UInt16} (hflag : flagLoop 0 fmt = some (flags, rest₁))
    (hwidth : widthLoop 0 rest₁ = some (width, c :: rest₂)) (strings : Strings) (l : Logger) (aa : List UInt32) :
    directive strings l fmt aa =
      (convert strings l c width flags aa).map fun r => .again (r.1, rest₂, r.2) := by
  rw [directive, hflag, Option.bind_some, hwidth, Option.bind_some]

/-- **A directive** either ends in a byte that the `switch` goes by, or the format is cut off: then the `switch` goes by
the NUL, and the turn steps over it. -/
theorem directive_skips (strings : Strings) (h0 : 0 ∉ fmt) (hne : fmt ≠ []) (hp : fmt.head? ≠ some (chr '%')) (l : Logger)
    (aa : List UInt32) :
    (∃ zero width c rest, rest.length < fmt.length ∧ 0 ∉ rest ∧
      items (.directive false false 0) fmt = (if TakesArg c then [.conversion zero width c] else []) ++ items .text rest ∧
      ending (.directive false false 0) fmt = ending .text rest ∧
      directive strings l (fmt ++ [0]) aa =
        (convert strings l c (UInt16.ofNat width) (flagsOf zero) aa).map fun r => .again (r.1, rest ++ [0], r.2)) ∨
    (ending (.directive false false 0) fmt).Cut ∧ directive strings l (fmt ++ [0]) aa = some (.again (l, [], aa)) := by
  obtain ⟨zero, begun₁, rest₁, hflag, hskip₁, hhead₁, hb₁⟩ := flagLoop_skips fmt false false
  obtain ⟨width, begun₂, rest₂, hwidth, hskip₂, hhead₂, hb₂⟩ := widthLoop_skips rest₁ begun₁ zero 0 (.inr hhead₁)
  have hskip := hskip₁.trans hskip₂
  have hbegun : begun₂ = true ∨ rest₂ = fmt := by
    rcases hb₂ with hb₂ | hb₂
    · exact .inl hb₂
    · rw [hb₂.1, hb₂.2]
      exact hb₁.imp id And.right
  cases rest₂ with
  | nil =>
    refine .inr ⟨?_, ?_⟩
    · rw [hskip.ending]
      exact hbegun.resolve_right fun h => hne h.symm
    · have hnul : ¬TakesArg 0 := by decide
      rw [directive_eq hflag hwidth, convert_other hnul]
      rfl
  | cons c rest =>
    have hdigit : ¬IsDigit c := hhead₂ c rfl
    have hpc : ¬(c = chr '%' ∧ begun₂ = false) := by
      rintro ⟨rfl, hf⟩
      rcases hbegun with hb | hb
      · rw [hf] at hb
        cases hb
      · exact hp (by rw [← hb]; rfl)
    have hnext : (Mode.directive begun₂ zero width).next c = .text := Mode.next_conversion hpc hdigit
    refine .inl ⟨zero, width, c, rest, ?_, fun h => h0 ?_, ?_, ?_, directive_eq hflag hwidth strings l aa⟩
    · have := hskip.suffix.length_le
      rw [List.length_cons] at this
      omega
    · exact hskip.suffix.subset (List.mem_cons_of_mem c h)
    · rw [hskip.items, Log.items, hnext, Mode.item, if_neg hpc]
    · rw [hskip.ending]
      show ending ((Mode.directive begun₂ zero width).next c) rest = _
      rw [hnext]

/-! ## The loop -/

theorem formatTurn_text (strings : Strings) (hc : c ≠ 0) (hp : c ≠ chr '%') (l : Logger) (fmt : List UInt8)
    (aa : List UInt32) : formatTurn strings (l, c :: fmt, aa) = some (.again (logByte l c, fmt, aa)) := by
  rw [formatTurn.eq_def]
  simp only [if_neg hc, if_neg hp]

theorem formatTurn_percent (strings : Strings) (l : Logger) (fmt : List UInt8) (aa : List UInt32) :
    formatTurn strings (l, chr '%' :: chr '%' :: fmt, aa) = some (.again (logByte l (chr '%'), fmt, aa)) := rfl

theorem formatTurn_directive (strings : Strings) (hc : c ≠ 0) (hp : c ≠ chr '%') (l : Logger) (fmt : List UInt8)
    (aa : List UInt32) : formatTurn strings (l, chr '%' :: c :: fmt, aa) = directive strings l (c :: fmt) aa := by
  rw [formatTurn.eq_def]
  simp only [show ¬chr '%' = 0 by decide, if_neg hc, if_neg hp, if_true, if_false]

/-- A turn takes one part off the format: the bytes `bs` are said, with the arguments that are asked for. -/
structure Advances (strings : Strings) (fmt : List UInt8) (args : List UInt32) (bs : List UInt8) (rest : List UInt8)
    (args' : List UInt32) : Prop where
  shorter : rest.length < fmt.length
  noNul : 0 ∉ rest
  enough : args'.length = arity (items .text rest)
  text : itemsText strings (items .text fmt) args = bs ++ itemsText strings (items .text rest) args'
  complete : Complete fmt ↔ Complete rest

theorem advances_text (strings : Strings) (hp : c ≠ chr '%') (h0 : 0 ∉ c :: fmt)
    (ha : args.length = arity (items .text (c :: fmt))) : Advances strings (c :: fmt) args [c] fmt args := by
  have hnext : Mode.text.next c = .text := by rw [Mode.next, if_neg hp]
  have hitems : items .text (c :: fmt) = .byte c :: items .text fmt := by
    rw [items, Mode.item, if_neg hp, hnext, List.singleton_append]
  have hending : ending .text (c :: fmt) = ending .text fmt := by
    show ending (Mode.text.next c) fmt = _
    rw [hnext]
  rw [hitems] at ha
  exact ⟨by simp, fun h => h0 (List.mem_cons_of_mem c h), ha, by rw [hitems]; rfl, by rw [Complete, hending, Complete]⟩

theorem advances_percent (strings : Strings) (h0 : 0 ∉ chr '%' :: chr '%' :: fmt)
    (ha : args.length = arity (items .text (chr '%' :: chr '%' :: fmt))) :
    Advances strings (chr '%' :: chr '%' :: fmt) args [chr '%'] fmt args :=
  ⟨by simp, fun h => h0 (by simp [h]), ha, rfl, Iff.rfl⟩

/-- A turn that begins a directive. -/
theorem turn_directive (strings : Strings) (more : List UInt32) (hp : c ≠ chr '%') (h0 : 0 ∉ chr '%' :: c :: fmt)
    (ha : args.length = arity (items .text (chr '%' :: c :: fmt))) (l : Logger) :
    (∃ l' bs rest args', formatTurn strings (l, chr '%' :: c :: fmt ++ [0], args ++ more) =
        some (.again (l', rest ++ [0], args' ++ more)) ∧ Says l l' bs ∧
      Advances strings (chr '%' :: c :: fmt) args bs rest args') ∨
    ¬Complete (chr '%' :: c :: fmt) ∧
      formatTurn strings (l, chr '%' :: c :: fmt ++ [0], args ++ more) = some (.again (l, [], args ++ more)) := by
  have h0' : 0 ∉ c :: fmt := fun h => h0 (List.mem_cons_of_mem _ h)
  have hc : c ≠ 0 := fun h => h0' (h ▸ List.mem_cons_self)
  have hdir : formatTurn strings (l, chr '%' :: c :: fmt ++ [0], args ++ more) =
      directive strings l (c :: fmt ++ [0]) (args ++ more) := by
    rw [List.cons_append, List.cons_append, formatTurn_directive strings hc hp]
  have hitems : items .text (chr '%' :: c :: fmt) = items (.directive false false 0) (c :: fmt) := rfl
  rw [hitems] at ha
  rcases directive_skips strings h0' (by simp) (by simpa using hp) l (args ++ more) with
    ⟨zero, width, d, rest, hlen, hz, hit, hend, hturn⟩ | ⟨hcut, hturn⟩
  · have hshort : rest.length < (chr '%' :: c :: fmt).length := Nat.lt_succ_of_lt hlen
    have hcomplete : Complete (chr '%' :: c :: fmt) ↔ Complete rest := by
      show ¬(ending (.directive false false 0) (c :: fmt)).Cut ↔ _
      rw [hend]
      rfl
    rw [hit] at ha
    by_cases hd : TakesArg d
    · rw [if_pos hd] at ha hit
      cases args with
      | nil => cases ha
      | cons a args =>
        obtain ⟨l', hconv, hsay⟩ := says_convert strings hd l zero width a (args ++ more)
        refine .inl ⟨l', _, rest, args, (hdir.trans hturn).trans (congrArg _ hconv), hsay, hshort, hz, ?_, ?_, hcomplete⟩
        · simpa [arity] using ha
        · rw [hitems, hit]
          rfl
    · rw [if_neg hd, List.nil_append] at ha hit
      exact .inl ⟨l, [], rest, args, (hdir.trans hturn).trans (congrArg _ (convert_other hd l _ _ _)), .refl l, hshort, hz,
        ha, by rw [hitems, hit, List.nil_append], hcomplete⟩
  · exact .inr ⟨fun hc => hc hcut, hdir.trans hturn⟩

/-- **One turn** leaves the loop at the end, or takes one part off the format, or steps over the NUL of a format that is
cut off. -/
theorem formatTurn_cases (strings : Strings) (more : List UInt32) (h0 : 0 ∉ fmt)
    (ha : args.length = arity (items .text fmt)) (l : Logger) :
    (formatTurn strings (l, fmt ++ [0], args ++ more) = some (.done (l, args ++ more)) ∧ Complete fmt ∧
      items .text fmt = []) ∨
    (∃ l' bs rest args', formatTurn strings (l, fmt ++ [0], args ++ more) =
        some (.again (l', rest ++ [0], args' ++ more)) ∧ Says l l' bs ∧ Advances strings fmt args bs rest args') ∨
    ¬Complete fmt ∧ formatTurn strings (l, fmt ++ [0], args ++ more) = some (.again (l, [], args ++ more)) := by
  cases fmt with
  | nil => exact .inl ⟨rfl, by decide, rfl⟩
  | cons c fmt =>
    by_cases hp : c = chr '%'
    · subst hp
      cases fmt with
      | nil => exact .inl ⟨rfl, by decide, rfl⟩
      | cons c fmt =>
        by_cases hp : c = chr '%'
        · subst hp
          exact .inr (.inl ⟨logByte l (chr '%'), _, fmt, args, formatTurn_percent .., says_logByte l _,
            advances_percent strings h0 ha⟩)
        · exact .inr (turn_directive strings more hp h0 ha l)
    · have hc : c ≠ 0 := fun h => h0 (h ▸ List.mem_cons_self)
      exact .inr (.inl ⟨logByte l c, _, fmt, args, formatTurn_text strings hc hp .., says_logByte l c,
        advances_text strings hp h0 ha⟩)

/-- **The formatter says what a complete format asks for**, with one argument for each conversion; and it reads past the
NUL of any other. -/
theorem run_format (strings : Strings) (more : List UInt32) {fuel : Nat} (l : Logger) (hf : fmt.length < fuel)
    (h0 : 0 ∉ fmt) (ha : args.length = arity (items .text fmt)) :
    (Complete fmt → ∃ l', Loop.run (formatTurn strings) fuel (l, fmt ++ [0], args ++ more) = some (l', more) ∧
      Says l l' (itemsText strings (items .text fmt) args)) ∧
    (¬Complete fmt → Loop.run (formatTurn strings) fuel (l, fmt ++ [0], args ++ more) = none) := by
  induction fuel generalizing fmt args l with
  | zero => omega
  | succ fuel ih =>
    rcases formatTurn_cases strings more h0 ha l with
      ⟨hturn, hc, hnil⟩ | ⟨l₁, bs, rest, args', hturn, hsay₁, hadv⟩ | ⟨hc, hturn⟩
    · rw [hnil] at ha ⊢
      have hargs : args = [] := List.eq_nil_of_length_eq_zero ha
      subst hargs
      exact ⟨fun _ => ⟨l, Loop.run_done hturn, .refl l⟩, fun h => absurd hc h⟩
    · have hlt := hadv.shorter
      obtain ⟨hyes, hno⟩ := ih l₁ (by omega) hadv.noNul hadv.enough
      rw [Loop.run_again hturn, hadv.complete, hadv.text]
      refine ⟨fun hc => ?_, hno⟩
      obtain ⟨l', hrun, hsay⟩ := hyes hc
      exact ⟨l', hrun, hsay₁.trans hsay⟩
    · refine ⟨fun h => absurd h hc, fun _ => ?_⟩
      rw [Loop.run_again hturn]
      exact Loop.run_hang rfl

end AmiPiBorg.Log
