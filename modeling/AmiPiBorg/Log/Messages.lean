import AmiPiBorg.Log.Formats

/-!
# Messages

A logger that has come about by the calls of the library (`Reachable`) keeps a NUL at the end of its buffer. So a message
ends within the buffer however long it is, and `logArgArrayInternal` stays within its buffers and its arguments
(`InBounds`). It stays within the format exactly if the format is complete (`logArgArrayInternal_iff`).
-/

set_option autoImplicit false

namespace AmiPiBorg.Log

open ProgLib ProgLib.Numerals

/-- What a message begins with. -/
def originText (o : Origin) : List UInt8 :=
  (if o.level = logError then chrs "E::" else if o.level ≤ logInfo then chrs "I::"
    else if o.level ≤ logDebug then chrs "D::" else chrs "T::") ++
  o.file ++ [chr '('] ++ numeral 10 97 o.line.toNat ++ [chr ')'] ++ separator ++ o.func ++ separator

/-- A logger after calls of the library. -/
inductive Reachable : Logger → Prop
  | create {logger buffer fh : Bool} {level : UInt16} {numBuf : Mem} {l : Logger}
      (h : createLogger logger buffer fh level numBuf = some l) : Reachable l
  | setLogLevel {l : Logger} (hl : Reachable l) (level : UInt16) : Reachable (setLogLevel l level)
  | log {l l' : Logger} {strings : Strings} {o : Origin} {fmt : List UInt8} {args rest : List UInt32} (hl : Reachable l)
      (h : logArgArrayInternal strings l o fmt args = some (l', rest)) : Reachable l'

/-- **What a call is to do**: nothing without a file; with one, say what stands in front, what the format asks for and a
line feed and a NUL, take the arguments that the format asks for and no more, store to the two buffers, and leave a string
in `l_Buf` that ends within its `LOG_BUF_LEN + 1` bytes. -/
def InBounds (strings : Strings) (l : Logger) (o : Origin) (fmt : List UInt8) (args more : List UInt32)
    (r : Logger × List UInt32) : Prop :=
  if l.outputFh then
    r.2 = more ∧ r.1.said = originText o ++ itemsText strings (items .text fmt) args ++ [chr '\n', 0] ∧
    (∀ p ∈ r.1.stores, p.InRange) ∧ ∃ i ≤ logBufLen, r.1.buf i = 0
  else r = (l, args ++ more)

variable {strings : Strings} {l l' : Logger} {o : Origin} {fmt : List UInt8} {args more rest aa aa' : List UInt32}
  {bs : List UInt8} {c : UInt8}

/-! ## The front of a message -/

theorem stringText_zero (s : List UInt8) : stringText s 0 0 = s := by simp [stringText]

theorem says_string (l : Logger) (s : List UInt8) : Says l (logString l s 0 0) s := by
  have h := says_logString l s 0 0
  rwa [stringText_zero] at h

theorem says_logLevel (l : Logger) (level : UInt16) : Says l (logLevel l level)
    (if level = logError then chrs "E::" else if level ≤ logInfo then chrs "I::"
      else if level ≤ logDebug then chrs "D::" else chrs "T::") := by
  unfold logLevel
  split
  · exact says_string l _
  split
  · exact says_string l _
  split
  · exact says_string l _
  · exact says_string l _

theorem says_logOrigin (l : Logger) (o : Origin) : ∃ l', logOrigin l o = some l' ∧ Says l l' (originText o) := by
  have h₁ := ((says_logLevel l o.level).trans (says_string _ o.file)).trans (says_logByte _ (chr '('))
  obtain ⟨l₂, hnum, hsay⟩ := says_logNumber usual_ten
    (logByte (logString (logLevel l o.level) o.file 0 0) (chr '(')) (Int32.ofNat o.line.toNat) 0 0
  have hline : numberText (Int32.ofNat o.line.toNat) 10 0 97 = numeral 10 97 o.line.toNat := by
    have hneg : ¬((0 : UInt16) &&& signed ≠ 0 ∧ (10 : UInt16) = 10 ∧ Int32.ofNat o.line.toNat < 0) := fun h => h.1 rfl
    have hlt := o.line.toNat_lt
    rw [numberText, if_neg hneg, Int32.toUInt32_ofNat', UInt32.toNat_ofNat', Nat.mod_eq_of_lt (by omega)]
    rfl
  rw [stringText_zero, hline] at hsay
  refine ⟨_, by rw [logOrigin, hnum, Option.map_some], ?_⟩
  have h₃ := ((says_logByte l₂ (chr ')')).trans (says_string _ separator)).trans (says_string _ o.func)
  have h₄ := h₁.trans (hsay.trans (h₃.trans (says_string _ separator)))
  rw [originText]
  simpa only [List.append_assoc] using h₄

/-! ## The end of the buffer -/

/-- A conversion keeps the buffers in order, whatever it is and whatever arguments there are. -/
theorem convert_keeps {width flags : UInt16} (h : convert strings l c width flags aa = some (l', aa')) :
    ∃ bs, Says l l' bs := by
  by_cases hc : TakesArg c
  · have hcases : c = chr 'd' ∨ c = chr 'u' ∨ c = chr 'x' ∨ c = chr 'X' ∨ c = chr 'c' ∨ c = chr 's' := by
      simpa [TakesArg, chrs] using hc
    cases aa with
    | nil => rcases hcases with rfl | rfl | rfl | rfl | rfl | rfl <;> cases h
    | cons a aa =>
      have hnum : ∀ {base flags : UInt16} {letBase : Int8}, Usual base letBase →
          (logNumber l a.toInt32 base width flags letBase).map (fun l => (l, aa)) = some (l', aa') →
          ∃ bs, Says l l' bs := by
        intro base flags letBase hu hm
        obtain ⟨l₁, hl₁, hsay⟩ := says_logNumber hu l a.toInt32 width flags
        rw [hl₁] at hm
        cases hm
        exact ⟨_, hsay⟩
      rcases hcases with rfl | rfl | rfl | rfl | rfl | rfl
      · exact hnum usual_ten h
      · exact hnum usual_ten h
      · exact hnum (usual_sixteen (.inl rfl)) h
      · exact hnum (usual_sixteen (.inr rfl)) h
      · obtain ⟨l₁, hl₁, hsay⟩ := convert_char strings l width flags a aa
        rw [hl₁] at h
        cases h
        exact ⟨_, hsay⟩
      · cases h
        exact ⟨_, says_logString l (strings a) width flags⟩
  · rw [convert_other hc] at h
    cases h
    exact ⟨[], .refl l⟩

/-- A turn keeps the buffers in order. -/
theorem formatTurn_keeps {s s' : FormatState} (h : formatTurn strings s = some (.again s')) : ∃ bs, Says s.1 s'.1 bs := by
  obtain ⟨l, fmt, aa⟩ := s
  have hdir : ∀ {fmt}, directive strings l fmt aa = some (.again s') → ∃ bs, Says l s'.1 bs := by
    intro fmt hd
    obtain ⟨p, -, hd⟩ := Option.bind_eq_some_iff.1 hd
    obtain ⟨q, -, hd⟩ := Option.bind_eq_some_iff.1 hd
    split at hd
    · cases hd
    · obtain ⟨r, hr, hd⟩ := Option.map_eq_some_iff.1 hd
      cases hd
      exact convert_keeps hr
  cases fmt with
  | nil => cases h
  | cons c fmt =>
    rw [formatTurn.eq_def] at h
    simp only at h
    split at h
    · cases h
    split at h
    · cases fmt with
      | nil => cases h
      | cons d fmt =>
        simp only at h
        split at h
        · cases h
        split at h
        · cases h
          exact ⟨_, says_logByte l _⟩
        · exact hdir h
    · cases h
      exact ⟨_, says_logByte l _⟩

/-- The loop ends where a turn begins. -/
theorem formatTurn_done {s : FormatState} {r : Logger × List UInt32} (h : formatTurn strings s = some (.done r)) :
    r.1 = s.1 := by
  obtain ⟨l, fmt, aa⟩ := s
  have hdir : ∀ {fmt}, directive strings l fmt aa = some (.done r) → r.1 = l := by
    intro fmt hd
    obtain ⟨p, -, hd⟩ := Option.bind_eq_some_iff.1 hd
    obtain ⟨q, -, hd⟩ := Option.bind_eq_some_iff.1 hd
    split at hd
    · cases hd
    · obtain ⟨r, hr, hd⟩ := Option.map_eq_some_iff.1 hd
      cases hd
  cases fmt with
  | nil => cases h
  | cons c fmt =>
    rw [formatTurn.eq_def] at h
    simp only at h
    split at h
    · cases h
      rfl
    split at h
    · cases fmt with
      | nil => cases h
      | cons d fmt =>
        simp only at h
        split at h
        · cases h
          rfl
        split at h
        · cases h
        · exact hdir h
    · cases h

/-- A message that is begun anew is in order if the last byte of the buffer is. -/
theorem sound_begin (h : l.buf logBufLen = 0) : Sound { l with end_ := 0, said := [], stores := [] } where
  fill := rfl
  text i hi := absurd hi (Nat.not_lt_zero i)
  last := h
  stores _ hp := absurd hp List.not_mem_nil

/-- **The last byte of the buffer stays a NUL.** -/
theorem Reachable.last (h : Reachable l) : l.buf logBufLen = 0 := by
  induction h with
  | create h =>
    rw [createLogger] at h
    split at h
    · cases h
      rfl
    · cases h
  | setLogLevel _ _ ih => exact ih
  | @log l l' strings o fmt args rest _ h ih =>
    rw [logArgArrayInternal] at h
    split at h
    · obtain ⟨l₁, hl₁, h⟩ := Option.bind_eq_some_iff.1 h
      obtain ⟨r, hr, h⟩ := Option.map_eq_some_iff.1 h
      cases h
      obtain ⟨l₂, hl₂, hsay⟩ := says_logOrigin { l with end_ := 0, said := [], stores := [] } o
      cases hl₁.symm.trans hl₂
      have hsound : Sound r.1 := by
        refine Loop.run_inv (fun s => Sound s.1) (fun r => Sound r.1) ?_ ?_ (hsay.sound (sound_begin ih)) hr
        · intro s s' hs hturn
          obtain ⟨bs, hb⟩ := formatTurn_keeps hturn
          exact hb.sound hs
        · intro s r hs hturn
          rwa [formatTurn_done hturn]
      exact (((says_logByte r.1 (chr '\n')).trans (says_logByte _ 0)).sound hsound).last
    · cases h
      exact ih

/-! ## A message -/

/-- **A call stays within bounds exactly if its format is complete**, or there is nothing to write to: one that ends in a
`%` with a `0` or a digit behind it is read past its NUL. -/
theorem logArgArrayInternal_iff (hl : Reachable l) (h0 : 0 ∉ fmt) (ha : args.length = arity (items .text fmt)) :
    (∃ r, logArgArrayInternal strings l o (fmt ++ [0]) (args ++ more) = some r ∧
        InBounds strings l o fmt args more r) ↔ (l.outputFh = true → Complete fmt) := by
  by_cases hfh : l.outputFh = true
  · obtain ⟨l₁, hl₁, hsay₁⟩ := says_logOrigin { l with end_ := 0, said := [], stores := [] } o
    have hfuel : fmt.length < (fmt ++ [0]).length + 1 := by
      rw [List.length_append]
      omega
    obtain ⟨hyes, hno⟩ := run_format strings more l₁ hfuel h0 ha
    have heq : logArgArrayInternal strings l o (fmt ++ [0]) (args ++ more) =
        (Loop.run (formatTurn strings) ((fmt ++ [0]).length + 1) (l₁, fmt ++ [0], args ++ more)).map fun r =>
          (logByte (logByte r.1 (chr '\n')) 0, r.2) := by
      rw [logArgArrayInternal, if_pos hfh, hl₁, Option.bind_some]
    rw [heq]
    constructor
    · rintro ⟨r, hr, -⟩ -
      refine Classical.not_not.1 fun hc => ?_
      rw [hno hc] at hr
      cases hr
    · intro hc
      obtain ⟨l₂, hrun, hsay₂⟩ := hyes (hc hfh)
      have hsay := (hsay₁.trans hsay₂).trans ((says_logByte l₂ (chr '\n')).trans (says_logByte _ 0))
      have hsound := hsay.sound (sound_begin hl.last)
      rw [hrun, Option.map_some]
      refine ⟨_, rfl, ?_⟩
      rw [InBounds, if_pos hfh]
      exact ⟨rfl, hsay.said, hsound.stores, logBufLen, le_rfl, hsound.last⟩
  · refine ⟨fun _ h => absurd h hfh, fun _ => ⟨(l, args ++ more), ?_, ?_⟩⟩
    · rw [logArgArrayInternal, if_neg hfh]
    · rw [InBounds, if_neg hfh]

/-- A number, for a new logger. -/
theorem logArgArrayInternal_iff_number : ∃ l, createLogger true true true 20 (fun _ => 0) = some l ∧
    ((∃ r, logArgArrayInternal (fun _ => []) l ⟨chrs "a.c", 1, chrs "f", 0⟩ (chrs "%d" ++ [0]) ([42] ++ []) = some r ∧
      InBounds (fun _ => []) l ⟨chrs "a.c", 1, chrs "f", 0⟩ (chrs "%d") [42] [] r) ↔
        (l.outputFh = true → Complete (chrs "%d"))) :=
  ⟨_, rfl, logArgArrayInternal_iff (@Reachable.create true true true 20 _ _ rfl) (by decide) (by decide)⟩

/-- A width without a conversion: the format is read past its NUL. -/
theorem logArgArrayInternal_cut :
    ((createLogger true true true 20 fun _ => 0).all fun l =>
      (logArgArrayInternal (fun _ => []) l ⟨chrs "a.c", 1, chrs "f", 0⟩ (chrs "%5" ++ [0]) []).isNone) = true ∧
    ¬ ∀ (strings : Strings) (l : Logger) (o : Origin) (fmt : List UInt8) (args more : List UInt32), Reachable l →
      0 ∉ fmt → args.length = arity (items .text fmt) →
      ∃ r, logArgArrayInternal strings l o (fmt ++ [0]) (args ++ more) = some r ∧ InBounds strings l o fmt args more r := by
  have hnone : ∀ l, createLogger true true true 20 (fun _ => 0) = some l →
      logArgArrayInternal (fun _ => []) l ⟨chrs "a.c", 1, chrs "f", 0⟩ (chrs "%5" ++ [0]) [] = none := by
    intro l hl
    cases hl
    exact Option.isNone_iff_eq_none.1 (by decide +kernel)
  refine ⟨by decide +kernel, fun h => ?_⟩
  obtain ⟨r, hr, -⟩ := h (fun _ => []) _ ⟨chrs "a.c", 1, chrs "f", 0⟩ (chrs "%5") [] []
    (@Reachable.create true true true 20 (fun _ => 0) _ rfl) (by decide) (by decide)
  have hn := hnone _ rfl
  rw [List.append_nil] at hr
  rw [hr] at hn
  cases hn

end AmiPiBorg.Log
