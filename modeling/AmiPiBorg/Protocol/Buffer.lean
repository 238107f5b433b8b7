import AmiPiBorg.Lib.Bytes

/-!
# Buffers (`server/buffer.h`)

A `Buffer` is what the reader and the writer take from the pool of 4096-byte buffers. Its memory is not cleared when it
is handed out, only `b_Offset` is.
-/

set_option autoImplicit false

namespace AmiPiBorg

open ProgLib

/-- `BUFFER_SIZE`. -/
abbrev bufferSize : Nat := 4096

/-- A pointer to a `struct Buffer`. -/
abbrev BufPtr := Nat

/-- `struct Buffer`: `offset` counts the bytes of `data` that are filled. -/
structure Buffer where
  offset : Nat
  data : Mem
  deriving Inhabited

/-- A place in the data of a buffer. -/
abbrev Addr := BufPtr × Nat

theorem le_foldr_max {a : Nat} : ∀ {l : List Nat}, a ∈ l → a ≤ l.foldr max 0
  | b :: l, h => by
    rcases List.mem_cons.1 h with rfl | h
    · exact Nat.le_max_left _ _
    · exact (le_foldr_max h).trans (Nat.le_max_right _ _)

end AmiPiBorg
