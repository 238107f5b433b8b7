import AmiPiBorg.Lib.Bytes
import AmiPiBorg.Lib.Loop

/-!
# The log formatter (`library/log.c`)

A logger puts a message together in `l_Buf`, a byte at a time through `APB_LogByte`, and makes the text of a number in
`l_NumBuf`. No value of a function means that it reads past the end of the format or of the arguments, or stores below
`l_NumBuf`. The number of bytes that the functions return goes nowhere and is left out.
-/

set_option autoImplicit false

namespace AmiPiBorg.Log

open ProgLib

/-- The byte of a character. -/
abbrev chr (c : Char) : UInt8 := UInt8.ofNat c.toNat

/-- The bytes of a string constant. -/
abbrev chrs (s : String) : List UInt8 := s.toList.map chr

def separator : List UInt8 := chrs "::"

abbrev padZero : UInt16 := 1
abbrev padRight : UInt16 := 2
abbrev signed : UInt16 := 3

abbrev numBufLen : Nat := 64
abbrev logBufLen : Nat := 1024

abbrev logError : UInt16 := 0
abbrev logInfo : UInt16 := 5
abbrev logDebug : UInt16 := 10

/-- A byte of one of the two buffers. -/
inductive Place
  | buf (i : Nat)
  | numBuf (i : Nat)
deriving DecidableEq, Repr

/-- `struct Logger`, with what `APB_LogByte` has been handed since the message was begun, and the places that have been
stored to since then. `l_MemPool` plays no part. -/
structure Logger where
  outputFh : Bool
  level : UInt16
  buf : Mem
  end_ : Nat
  numBuf : Mem
  said : List UInt8
  stores : List Place

/-- A store to `l_NumBuf`. -/
def Logger.setNum (l : Logger) (i : Nat) (c : UInt8) : Logger :=
  { l with numBuf := Function.update l.numBuf i c, stores := l.stores ++ [.numBuf i] }

/-- The string at `l_NumBuf + i`. -/
def Logger.numString (l : Logger) (i : Nat) : List UInt8 :=
  (l.numBuf.slice i (numBufLen - i)).takeWhile (· ≠ 0)

/-- `APB_CreateLogger`, told whether there is memory for the logger and for its buffer, and what `l_NumBuf` holds. The
buffer is cleared through `l` and `l_Buf` whether or not there is. -/
def createLogger (logger buffer : Bool) (outputFh : Bool) (level : UInt16) (numBuf : Mem) : Option Logger :=
  if logger && buffer then
    some ⟨outputFh, level, fun _ => 0, 0, numBuf, [], (List.range (logBufLen + 1)).map .buf⟩
  else none

/-- `APB_SetLogLevel`. -/
def setLogLevel (l : Logger) (level : UInt16) : Logger := { l with level := level }

/-- `APB_LogByte`. -/
def logByte (l : Logger) (c : UInt8) : Logger :=
  let l := { l with said := l.said ++ [c] }
  if l.end_ ≥ logBufLen then l
  else { l with
    buf := Function.update l.buf l.end_ c
    stores := l.stores ++ [.buf l.end_]
    end_ := l.end_ + 1 }

/-- One call of `APB_LogByte` after the other. -/
def logBytes (l : Logger) (bs : List UInt8) : Logger := bs.foldl logByte l

/-- How much `APB_LogString` pads a string of this length. -/
def padWidth (len width : UInt16) : UInt16 :=
  if 0 < width then if len ≥ width then 0 else width - len else width

/-- What it pads with. -/
def padByte (width flags : UInt16) : UInt8 := if 0 < width ∧ flags &&& padZero ≠ 0 then chr '0' else chr ' '

/-- `APB_LogString`, with the bytes of `s` up to its NUL. -/
def logString (l : Logger) (s : List UInt8) (width flags : UInt16) : Logger :=
  let pad := padByte width flags
  let width := padWidth (UInt16.ofNat s.length) width
  let left := if flags &&& padRight = 0 then width else 0
  let right := width - left
  let l := logBytes l (List.replicate left.toNat pad)
  let l := logBytes l s
  logBytes l (List.replicate right.toNat pad)

/-- The loop of `APB_LogNumber`, with `s` an offset in `l_NumBuf`. -/
def digitLoop (base : UInt16) (letBase : Int8) : Nat → UInt32 → Logger → Option (Logger × Nat)
  | s, u, l =>
    if u = 0 then some (l, s)
    else match s with
      | 0 => none
      | s + 1 =>
        let d := (u % base.toUInt32).toUInt8.toInt8
        let d := if 10 ≤ d then d + letBase - 48 - 10 else d
        digitLoop base letBase s (u / base.toUInt32) (l.setNum s (d + 48).toUInt8)

/-- `APB_LogNumber`, for a base other than zero. The negation of the least `LONG` is itself. -/
def logNumber (l : Logger) (v : Int32) (base width flags : UInt16) (letBase : Int8) : Option Logger :=
  if v = 0 then
    let l := (l.setNum 0 (chr '0')).setNum 1 0
    some (logString l (l.numString 0) width flags)
  else
    let neg := flags &&& signed ≠ 0 ∧ base = 10 ∧ v < 0
    let u := if neg then (-v).toUInt32 else v.toUInt32
    let s := numBufLen - 1
    let l := l.setNum s 0
    (digitLoop base letBase s u l).bind fun r =>
      if neg then
        match r.2 with
        | 0 => none
        | s + 1 =>
          let l := r.1.setNum s (chr '-')
          some (logString l (l.numString s) width flags)
      else some (logString r.1 (r.1.numString r.2) width flags)

/-- `APB_LogLevel`. -/
def logLevel (l : Logger) (level : UInt16) : Logger :=
  if level = logError then logString l (chrs "E::") 0 0
  else if level ≤ logInfo then logString l (chrs "I::") 0 0
  else if level ≤ logDebug then logString l (chrs "D::") 0 0
  else logString l (chrs "T::") 0 0

/-! ## The format -/

/-- The strings at the addresses that are handed to a `%s`, up to their NULs. -/
abbrev Strings : Type := UInt32 → List UInt8

/-- The loop over the `0`s: the flags, and the format from the first other byte on. -/
def flagLoop : UInt16 → List UInt8 → Option (UInt16 × List UInt8)
  | _, [] => none
  | flags, c :: fmt => if c = chr '0' then flagLoop (flags ||| padZero) fmt else some (flags, c :: fmt)

/-- The loop over the digits: the width, and the format from the first other byte on. -/
def widthLoop : UInt16 → List UInt8 → Option (UInt16 × List UInt8)
  | _, [] => none
  | width, c :: fmt =>
    if chr '0' ≤ c ∧ c ≤ chr '9' then widthLoop (width * 10 + (c.toUInt16 - (chr '0').toUInt16)) fmt
    else some (width, c :: fmt)

/-- The `switch` over a conversion. `GETARG` takes the next argument. -/
def convert (strings : Strings) (l : Logger) (c : UInt8) (width flags : UInt16) (aa : List UInt32) :
    Option (Logger × List UInt32) :=
  if c = chr 'd' then
    match aa with
    | [] => none
    | a :: aa => (logNumber l a.toInt32 10 width (flags ||| signed) 97).map fun l => (l, aa)
  else if c = chr 'u' then
    match aa with
    | [] => none
    | a :: aa => (logNumber l a.toInt32 10 width flags 97).map fun l => (l, aa)
  else if c = chr 'x' then
    match aa with
    | [] => none
    | a :: aa => (logNumber l a.toInt32 16 width flags 97).map fun l => (l, aa)
  else if c = chr 'X' then
    match aa with
    | [] => none
    | a :: aa => (logNumber l a.toInt32 16 width flags 65).map fun l => (l, aa)
  else if c = chr 'c' then
    match aa with
    | [] => none
    | a :: aa =>
      let l := l.setNum 0 a.toUInt8
      let l := if l.numBuf 0 < chr ' ' then l.setNum 0 (chr '.') else l
      let l := l.setNum 1 0
      some (logString l (l.numString 0) width flags, aa)
  else if c = chr 's' then
    match aa with
    | [] => none
    | a :: aa => some (logString l (strings a) width flags, aa)
  else some (l, aa)

/-- The format from a position on, its NUL included, with the logger and the arguments that are left. -/
abbrev FormatState : Type := Logger × List UInt8 × List UInt32

/-- The rest of a turn, from the byte after the `%` on. The byte that the `switch` goes by is stepped over, whichever it
is. -/
def directive (strings : Strings) (l : Logger) (fmt : List UInt8) (aa : List UInt32) :
    Option (Turn FormatState (Logger × List UInt32)) :=
  (flagLoop 0 fmt).bind fun p => (widthLoop 0 p.2).bind fun q =>
    match q.2 with
    | [] => none
    | c :: fmt => (convert strings l c q.1 p.1 aa).map fun r => .again (r.1, fmt, r.2)

/-- A turn of the loop of `APB_LogArgArrayInternal`. -/
def formatTurn (strings : Strings) : FormatState → Option (Turn FormatState (Logger × List UInt32))
  | (_, [], _) => none
  | (l, c :: fmt, aa) =>
    if c = 0 then some (.done (l, aa))
    else if c = chr '%' then
      match fmt with
      | [] => none
      | c :: fmt =>
        if c = 0 then some (.done (l, aa))
        else if c = chr '%' then some (.again (logByte l (chr '%'), fmt, aa))
        else directive strings l (c :: fmt) aa
    else some (.again (logByte l c, fmt, aa))

/-- Where a message comes from. -/
structure Origin where
  file : List UInt8
  line : UInt16
  func : List UInt8
  level : UInt16

/-- What stands in front of a message. -/
def logOrigin (l : Logger) (o : Origin) : Option Logger :=
  let l := logLevel l o.level
  let l := logString l o.file 0 0
  let l := logByte l (chr '(')
  (logNumber l (Int32.ofNat o.line.toNat) 10 0 0 97).map fun l =>
    let l := logByte l (chr ')')
    let l := logString l separator 0 0
    let l := logString l o.func 0 0
    logString l separator 0 0

/-- `APB_LogArgArrayInternal`: the logger, whose buffer is handed to `FPuts` if it has a file, and the arguments that
have not been taken. Each turn steps over a byte of the format at least. -/
def logArgArrayInternal (strings : Strings) (l : Logger) (o : Origin) (fmt : List UInt8) (args : List UInt32) :
    Option (Logger × List UInt32) :=
  if l.outputFh then
    (logOrigin { l with end_ := 0, said := [], stores := [] } o).bind fun l =>
      (Loop.run (formatTurn strings) (fmt.length + 1) (l, fmt, args)).map fun r =>
        (logByte (logByte r.1 (chr '\n')) 0, r.2)
  else some (l, args)

end AmiPiBorg.Log
