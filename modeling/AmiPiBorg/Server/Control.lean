import AmiPiBorg.Reader.Links
import AmiPiBorg.Reader.Resync
import AmiPiBorg.Server.Defs

/-!
# What is read of a control packet (`server/server.c`, lines 376 to 454)

`handleControlPacket` lists what the handling of a control packet does with its payload, in order: each byte that is
read, and what is logged and sent again because of it. The bytes are those of the two pieces of the payload, and of the
copy that `APB_ConfigureServer` makes of a hello. Behind the copy there is whatever the memory holds, up to its end.

The number of handlers and the ends of their names come from the payload itself, and the source checks neither.
`control_decoded` says when all that is read is payload.
-/

set_option autoImplicit false

namespace AmiPiBorg

open ProgLib Reader

namespace Control

/-- `LOG_ERROR`. -/
def logError : Nat := 0
/-- `LOG_INFO`. -/
def logInfo : Nat := 5
/-- `sizeof(struct PacketHello)`. -/
def sizeofPacketHello : Nat := 4
/-- `sizeof(struct HandlerDesc)`. -/
def sizeofHandlerDesc : Nat := 12

/-- A byte of the first piece, of the second piece, or from the start of the copy on. -/
inductive Place where
  | data1 (i : Nat)
  | data2 (i : Nat)
  | copy (i : Nat)
  deriving DecidableEq

/-- The byte belongs to the payload. -/
def Place.Inside (ip : InPacket) : Place → Prop
  | .data1 i => i < ip.data1Length
  | .data2 i => i < ip.data2Length
  | .copy i => i < ip.data1Length + ip.data2Length

/-- What is logged. -/
inductive Message where
  | noMemory (size : Nat)
  | version (version : UInt16)
  | handlers (count : UInt16)
  | handler (id : UInt16) (name : List UInt8)
  | resend (packId : UInt16)
  deriving DecidableEq

/-- What the code does with a payload. -/
inductive Action where
  | read (p : Place)
  | log (m : Message)
  | resendPacket (packId : UInt16)
  deriving DecidableEq

/-- A `UWORD` is read. -/
def readWord (place : Nat → Place) (i : Nat) : List Action := [.read (place i), .read (place (i + 1))]

/-- The bytes that `APB_InPacketToBuffer` reads. -/
def inPacketToBufferReads (ip : InPacket) : List Action :=
  (List.range ip.data1Length).map (fun i => .read (.data1 i)) ++
    (List.range ip.data2Length).map fun i => .read (.data2 i)

/-- `APB_LogString` on the string at `s`: the bytes before its NUL. -/
def stringAt (memory : List UInt8) (s : Nat) : List UInt8 := (memory.drop s).takeWhile fun b => decide (b ≠ 0)

/-- The NUL is read as well. -/
def readString (memory : List UInt8) (s : Nat) : List Action :=
  (List.range ((stringAt memory s).length + 1)).map fun i => .read (.copy (s + i))

/-- The `UWORD` at `i`. -/
def wordAt (memory : List UInt8) (i : Nat) : UInt16 := (Mem.ofList memory).word i

/-- `ph_HandlerCount` of the hello in `memory`. -/
def handlerCount (memory : List UInt8) : UInt16 := wordAt memory 2

/-- A message is logged if `APB_ShouldLog` says so. -/
def logged (shouldLog : Bool) (as : List Action) : List Action := if shouldLog then as else []

/-- One descriptor is logged. Its name is read where the message is printed, the arguments of the message in any case. -/
def logHandler (shouldLog : Bool) (memory : List UInt8) (h : Nat) : List Action :=
  readWord .copy h ++
    logged shouldLog (readString memory (h + 2) ++ [.log (.handler (wordAt memory h) (stringAt memory (h + 2)))])

/-- The loop of `APB_ConfigureServer`, with `n` descriptors left from `h` on. -/
def logHandlers (shouldLog : Bool) (memory : List UInt8) : Nat → Nat → List Action
  | 0, _ => readWord .copy 2
  | n + 1, h =>
    readWord .copy 2 ++ logHandler shouldLog memory h ++ logHandlers shouldLog memory n (h + sizeofHandlerDesc)

/-- `APB_ConfigureServer`, in a copy of the payload with `beyond` behind it. `room` says for which sizes there is memory,
and `shouldLog` which levels are printed. -/
def configureServer (room : Nat → Bool) (shouldLog : Nat → Bool) (s : Reader) (beyond : List UInt8) (ip : InPacket) :
    List Action :=
  let size := (ip.data1Length + ip.data2Length) % 65536
  let memory := s.inPacketToBuffer ip ++ beyond
  if room size then
    inPacketToBufferReads ip ++
      (readWord .copy 0 ++ logged (shouldLog logInfo) [.log (.version (wordAt memory 0))]) ++
      (readWord .copy 2 ++ logged (shouldLog logInfo) [.log (.handlers (handlerCount memory))]) ++
      (readWord .copy 2 ++
        if 0 < (handlerCount memory).toNat then
          logHandlers (shouldLog logInfo) memory (handlerCount memory).toNat sizeofPacketHello
        else [])
  else logged (shouldLog logError) [.log (.noMemory size)]

/-- `APB_HandleResendRequest`. -/
def handleResendRequest (shouldLog : Nat → Bool) (s : Reader) (ip : InPacket) : List Action :=
  let packId := (s.mem ip.data1).word 0
  readWord .data1 0 ++ logged (shouldLog logInfo) [.log (.resend packId)] ++ [.resendPacket packId]

/-- `APB_HandleControlPacket`. -/
def handleControlPacket (room : Nat → Bool) (shouldLog : Nat → Bool) (s : Reader) (beyond : List UInt8) (ip : InPacket) :
    List Action :=
  if ip.type = ptHello then configureServer room shouldLog s beyond ip
  else if ip.type = ptResend then handleResendRequest shouldLog s ip
  else []

/-! ## What fits -/

/-- Where the name of the last of `n + 1` descriptors starts. -/
def lastName (n : Nat) : Nat := sizeofPacketHello + n * sizeofHandlerDesc + 2

/-- The hello is whole: its last descriptor starts in it, and where names are printed a NUL follows. -/
def Whole (shouldLog : Bool) (payload : List UInt8) : Prop :=
  sizeofPacketHello ≤ payload.length ∧
    (handlerCount payload = 0 ∨ lastName ((handlerCount payload).toNat - 1) ≤ payload.length ∧
      (shouldLog = true → 0 ∈ payload.drop (lastName ((handlerCount payload).toNat - 1))))

/-- A hello is whole, or there is no memory for its copy. A request to send a packet again has two bytes in its first
piece. -/
def Decodable (room : Nat → Bool) (shouldLog : Nat → Bool) (s : Reader) (ip : InPacket) : Prop :=
  (ip.type = ptHello → room (ip.data1Length + ip.data2Length) = true →
      Whole (shouldLog logInfo) (s.inPacketToBuffer ip)) ∧
    (ip.type = ptResend → 2 ≤ ip.data1Length)

/-- All that is read is payload. -/
def ReadsInside (ip : InPacket) (as : List Action) : Prop := ∀ p, .read p ∈ as → p.Inside ip

variable {ip : InPacket} {as bs : List Action} {memory payload beyond : List UInt8} {log : Bool}
  {room shouldLog : Nat → Bool} {s : Reader}

@[simp] theorem readsInside_nil : ReadsInside ip [] := fun p hp => by cases hp

@[simp] theorem readsInside_append : ReadsInside ip (as ++ bs) ↔ ReadsInside ip as ∧ ReadsInside ip bs := by
  simp only [ReadsInside, List.mem_append, or_imp, forall_and]

@[simp] theorem readsInside_log (m : Message) : ReadsInside ip [.log m] := by simp [ReadsInside]

@[simp] theorem readsInside_resendPacket (packId : UInt16) : ReadsInside ip [.resendPacket packId] := by
  simp [ReadsInside]

theorem readsInside_logged : ReadsInside ip (logged log as) ↔ (log = true → ReadsInside ip as) := by
  cases log with
  | false => simp [logged]
  | true => simp [logged]

theorem readsInside_readWord (place : Nat → Place) (i : Nat) :
    ReadsInside ip (readWord place i) ↔ (place i).Inside ip ∧ (place (i + 1)).Inside ip := by
  simp [ReadsInside, readWord]

/-- The copy is made of payload only. -/
theorem readsInside_inPacketToBuffer : ReadsInside ip (inPacketToBufferReads ip) := by
  intro p hp
  obtain hp | hp := List.mem_append.1 hp
  · obtain ⟨i, hi, hp⟩ := List.mem_map.1 hp
    cases hp
    exact List.mem_range.1 hi
  · obtain ⟨i, hi, hp⟩ := List.mem_map.1 hp
    cases hp
    exact List.mem_range.1 hi

/-! ## Strings -/

/-- What follows a list is looked at only if no NUL is in the list. -/
theorem takeWhile_lt_iff (xs beyond : List UInt8) :
    ((xs ++ beyond).takeWhile fun b => decide (b ≠ 0)).length < xs.length ↔ 0 ∈ xs := by
  induction xs with
  | nil => simp
  | cons x xs ih =>
    by_cases hx : x = 0
    · simp [hx]
    · simp only [List.cons_append, List.takeWhile_cons, hx, ne_eq, not_false_eq_true, decide_true, if_true,
        List.length_cons, Nat.add_lt_add_iff_right, List.mem_cons, Ne.symm hx, false_or]
      exact ih

theorem takeWhile_congr {xs : List UInt8} (h : 0 ∈ xs) (beyond beyond' : List UInt8) :
    (xs ++ beyond).takeWhile (fun b => decide (b ≠ 0)) = (xs ++ beyond').takeWhile fun b => decide (b ≠ 0) := by
  induction xs with
  | nil => cases h
  | cons x xs ih =>
    by_cases hx : x = 0
    · simp [hx]
    · have h' : 0 ∈ xs := (List.mem_cons.1 h).resolve_left (Ne.symm hx)
      simpa [hx] using ih h'

/-- **A string is read inside the payload exactly if its NUL is there.** -/
theorem readsInside_readString (hlen : payload.length = ip.data1Length + ip.data2Length) (h : Nat) :
    ReadsInside ip (readString (payload ++ beyond) h) ↔ 0 ∈ payload.drop h := by
  have hall : ReadsInside ip (readString (payload ++ beyond) h) ↔
      h + (stringAt (payload ++ beyond) h).length < payload.length := by
    rw [hlen]
    constructor
    · intro hr
      exact hr (.copy (h + (stringAt (payload ++ beyond) h).length))
        (List.mem_map.2 ⟨_, List.mem_range.2 (Nat.lt_succ_self _), rfl⟩)
    · intro hlt p hp
      obtain ⟨i, hi, hp⟩ := List.mem_map.1 hp
      cases hp
      have := List.mem_range.1 hi
      show h + i < _
      omega
  rw [hall, stringAt]
  by_cases hle : h ≤ payload.length
  · rw [List.drop_append_of_le_length hle, ← takeWhile_lt_iff _ beyond, List.length_drop]
    omega
  · have hnil : payload.drop h = [] := List.drop_eq_nil_of_le (by omega)
    rw [hnil]
    exact iff_of_false (by omega) List.not_mem_nil

/-! ## The loop -/

/-- **One descriptor.** -/
theorem readsInside_logHandler (hlen : payload.length = ip.data1Length + ip.data2Length) (h : Nat) :
    ReadsInside ip (logHandler log (payload ++ beyond) h) ↔
      h + 2 ≤ payload.length ∧ (log = true → 0 ∈ payload.drop (h + 2)) := by
  have hword : Place.Inside ip (.copy h) ∧ Place.Inside ip (.copy (h + 1)) ↔ h + 2 ≤ payload.length := by
    rw [hlen]
    show h < _ ∧ h + 1 < _ ↔ _
    omega
  simp only [logHandler, readsInside_append, readsInside_readWord, readsInside_logged, readsInside_log, and_true,
    readsInside_readString hlen, hword]

/-- A later start that is inside leaves the earlier ones inside. -/
theorem mem_drop_of_le {a b : Nat} (h : 0 ∈ payload.drop b) (hab : a ≤ b) : 0 ∈ payload.drop a := by
  rw [show b = a + (b - a) by omega, ← List.drop_drop] at h
  exact List.mem_of_mem_drop h

/-- **All descriptors** are read inside the payload if the last one is. The induction is on the number that is left. -/
theorem readsInside_logHandlers (hlen : payload.length = ip.data1Length + ip.data2Length)
    (hfits : sizeofPacketHello ≤ payload.length) : ∀ n h : Nat,
      ReadsInside ip (logHandlers log (payload ++ beyond) n h) ↔
        n = 0 ∨ h + (n - 1) * sizeofHandlerDesc + 2 ≤ payload.length ∧
          (log = true → 0 ∈ payload.drop (h + (n - 1) * sizeofHandlerDesc + 2))
  | 0, h => by
    simp only [sizeofPacketHello] at hfits
    simp only [logHandlers, readsInside_readWord, Place.Inside, true_or, iff_true]
    omega
  | n + 1, h => by
    have hcount : Place.Inside ip (.copy 2) ∧ Place.Inside ip (.copy (2 + 1)) := by
      simp only [sizeofPacketHello] at hfits
      simp only [Place.Inside]
      omega
    simp only [logHandlers, readsInside_append, readsInside_readWord, hcount, and_self, true_and,
      readsInside_logHandler hlen, readsInside_logHandlers hlen hfits n, Nat.add_sub_cancel, Nat.succ_ne_zero, false_or]
    cases n with
    | zero => simp
    | succ m =>
      have hlast : h + sizeofHandlerDesc + m * sizeofHandlerDesc = h + (m + 1) * sizeofHandlerDesc := by
        rw [Nat.succ_mul]
        omega
      simp only [Nat.succ_ne_zero, false_or, Nat.add_sub_cancel, hlast]
      have hle : h + 2 ≤ h + (m + 1) * sizeofHandlerDesc + 2 := by omega
      exact ⟨fun hr => hr.2, fun hr => ⟨⟨hle.trans hr.1, fun hl => mem_drop_of_le (hr.2 hl) hle⟩, hr⟩⟩

/-! ## A hello -/

theorem length_inPacketToBuffer (s : Reader) (ip : InPacket) :
    (s.inPacketToBuffer ip).length = ip.data1Length + ip.data2Length := by
  simp [inPacketToBuffer]

theorem wordAt_append {i : Nat} (h : i + 2 ≤ payload.length) : wordAt (payload ++ beyond) i = wordAt payload i := by
  simp only [wordAt, Mem.word, Mem.ofList, List.getD_eq_getElem?_getD,
    List.getElem?_append_left (show i < payload.length by omega),
    List.getElem?_append_left (show i + 1 < payload.length by omega)]

/-- **A hello is read inside the payload exactly if it is whole.** -/
theorem readsInside_configureServer (hsize : ip.data1Length + ip.data2Length < 65536)
    (hroom : room (ip.data1Length + ip.data2Length) = true) :
    ReadsInside ip (configureServer room shouldLog s beyond ip) ↔
      Whole (shouldLog logInfo) (s.inPacketToBuffer ip) := by
  have hlen := length_inPacketToBuffer s ip
  simp only [configureServer, Nat.mod_eq_of_lt hsize, hroom, if_true]
  generalize s.inPacketToBuffer ip = payload at hlen ⊢
  have hwords : (Place.Inside ip (.copy 0) ∧ Place.Inside ip (.copy (0 + 1))) ∧
      Place.Inside ip (.copy 2) ∧ Place.Inside ip (.copy (2 + 1)) ↔ sizeofPacketHello ≤ payload.length := by
    rw [hlen]
    show (0 < _ ∧ 1 < _) ∧ 2 < _ ∧ 3 < _ ↔ 4 ≤ _
    omega
  by_cases hfits : sizeofPacketHello ≤ payload.length
  · obtain ⟨h₀, h₂⟩ := hwords.2 hfits
    have hcount : handlerCount (payload ++ beyond) = handlerCount payload := wordAt_append hfits
    have hzero : (handlerCount payload).toNat = 0 ↔ handlerCount payload = 0 := UInt16.toNat_inj (b := 0)
    simp only [readsInside_append, readsInside_inPacketToBuffer, readsInside_readWord, readsInside_logged,
      readsInside_log, implies_true, h₀, h₂, and_self, true_and, hcount, Whole, hfits]
    by_cases hn : handlerCount payload = 0
    · simp [hn]
    · have hpos : 0 < (handlerCount payload).toNat := Nat.pos_of_ne_zero fun h => hn (hzero.1 h)
      rw [if_pos hpos, readsInside_logHandlers hlen hfits, hzero]
      exact Iff.rfl
  · refine iff_of_false (fun hr => hfits (hwords.1 ?_)) fun hw => hfits hw.1
    simp only [readsInside_append, readsInside_readWord] at hr
    exact ⟨hr.1.1.2.1, hr.1.2.1⟩

/-- What is read and logged of a whole hello does not depend on the memory behind its copy. -/
theorem logHandlers_congr (hfits : sizeofPacketHello ≤ payload.length) (beyond beyond' : List UInt8) :
    ∀ n h : Nat, ReadsInside ip (logHandlers log (payload ++ beyond) n h) →
      payload.length = ip.data1Length + ip.data2Length →
      logHandlers log (payload ++ beyond) n h = logHandlers log (payload ++ beyond') n h
  | 0, _, _, _ => rfl
  | n + 1, h, hr, hlen => by
    simp only [logHandlers, readsInside_append] at hr
    obtain ⟨hend, hnul⟩ := (readsInside_logHandler hlen h).1 hr.1.2
    have hdesc : logHandler log (payload ++ beyond) h = logHandler log (payload ++ beyond') h := by
      cases log with
      | false => rfl
      | true =>
        have hs : stringAt (payload ++ beyond) (h + 2) = stringAt (payload ++ beyond') (h + 2) := by
          simp only [stringAt, List.drop_append_of_le_length hend]
          exact takeWhile_congr (hnul rfl) beyond beyond'
        simp only [logHandler, readString, hs, wordAt_append hend]
    simp only [logHandlers, hdesc, logHandlers_congr hfits beyond beyond' n _ hr.2 hlen]

theorem readsInside_handleResendRequest :
    ReadsInside ip (handleResendRequest shouldLog s ip) ↔ 2 ≤ ip.data1Length := by
  simp only [handleResendRequest, readsInside_append, readsInside_readWord, readsInside_logged, readsInside_log,
    readsInside_resendPacket, implies_true, and_true, Place.Inside]
  omega

/-- **What is read of a control packet**, and what is sent again, is payload exactly if the packet can be decoded. -/
theorem readsInside_handleControlPacket (hsize : ip.data1Length + ip.data2Length < 65536) :
    ReadsInside ip (handleControlPacket room shouldLog s beyond ip) ↔ Decodable room shouldLog s ip := by
  by_cases hh : ip.type = ptHello
  · have hr : ip.type ≠ ptResend := by rw [hh]; decide
    simp only [handleControlPacket, Decodable, hh, if_true, true_imp_iff]
    by_cases hroom : room (ip.data1Length + ip.data2Length) = true
    · rw [readsInside_configureServer hsize hroom]
      exact ⟨fun hw => ⟨fun _ => hw, fun h => absurd (hh.trans h) hr⟩, fun hw => hw.1 hroom⟩
    · have hno : ReadsInside ip (configureServer room shouldLog s beyond ip) := by
        simp only [configureServer, Nat.mod_eq_of_lt hsize, hroom, if_false, Bool.false_eq_true]
        exact readsInside_logged.2 fun _ => readsInside_log _
      exact iff_of_true hno ⟨fun h => absurd h hroom, fun h => absurd (hh.trans h) hr⟩
  · by_cases hr : ip.type = ptResend
    · rw [handleControlPacket, if_neg hh, if_pos hr, readsInside_handleResendRequest]
      exact ⟨fun h => ⟨fun h' => absurd h' hh, fun _ => h⟩, fun h => h.2 hr⟩
    · simp only [handleControlPacket, Decodable, hh, hr, if_false, false_imp_iff, and_self, readsInside_nil]

/-- **The memory behind the copy makes no difference** to a packet that can be decoded. -/
theorem handleControlPacket_congr (hsize : ip.data1Length + ip.data2Length < 65536)
    (hd : Decodable room shouldLog s ip) (beyond beyond' : List UInt8) :
    handleControlPacket room shouldLog s beyond ip = handleControlPacket room shouldLog s beyond' ip := by
  have hr : ReadsInside ip (handleControlPacket room shouldLog s beyond ip) :=
    (readsInside_handleControlPacket hsize).2 hd
  by_cases hh : ip.type = ptHello
  · simp only [handleControlPacket, hh, if_true] at hr ⊢
    by_cases hroom : room (ip.data1Length + ip.data2Length) = true
    · have hlen := length_inPacketToBuffer s ip
      obtain ⟨hfits, -⟩ := hd.1 hh hroom
      have hword : ∀ i, i + 2 ≤ sizeofPacketHello → ∀ more,
          wordAt (s.inPacketToBuffer ip ++ more) i = wordAt (s.inPacketToBuffer ip) i :=
        fun i hi more => wordAt_append (hi.trans hfits)
      simp only [configureServer, Nat.mod_eq_of_lt hsize, hroom, if_true, handlerCount, hword 0 (by decide),
        hword 2 (by decide), readsInside_append] at hr ⊢
      by_cases hn : 0 < (wordAt (s.inPacketToBuffer ip) 2).toNat
      · simp only [hn, if_true] at hr ⊢
        rw [logHandlers_congr hfits beyond beyond' _ _ hr.2.2 hlen]
      · simp only [hn, if_false]
    · simp only [configureServer, Nat.mod_eq_of_lt hsize, hroom, if_false, Bool.false_eq_true]
  · simp only [handleControlPacket, hh, if_false]

end Control

/-! ## What the reader queues -/

namespace Reader

variable {s : Reader} {al : Alloc} {ib1 : IbPtr} {h : Header} {d : Located} {P : InPacket → Prop}

/-- The two pieces of a packet are as long as its header says. -/
theorem Accepted.length (acc : s.Accepted al ib1 h d) : d.dataLen1 + d.dataLen2 = h.hdr.length.toNat := by
  obtain ⟨hlen, rfl⟩ | ⟨-, ⟨-, -, -, ib2, -, -, rfl⟩ | ⟨-, -, hsplit, -, ib2, -, -, rfl⟩ | ⟨-, -, rfl⟩ |
    ⟨ib2, -, -, rfl⟩⟩ := locate_cases acc.locate
  · exact hlen.symm
  · rfl
  · have hodd : h.oddSize ≤ 1 := by
      unfold Header.oddSize
      split <;> omega
    dsimp only
    omega
  · rfl
  · rfl

/-- **A turn** queues only what it accepts. -/
theorem queue_turn (hP : ∀ (s : Reader) ib1 h d, s.Accepted al ib1 h d → P (newPacket ib1 h d)) {p : Option IbPtr}
    {t : Turn (Reader × Option IbPtr) Reader} (hs : ∀ ip ∈ s.queue, P ip) (ht : turn al (s, p) = some t) :
    (∀ u, t = .again u → ∀ ip ∈ u.1.queue, P ip) ∧ ∀ r, t = .done r → ∀ ip ∈ r.queue, P ip := by
  cases p with
  | none =>
    cases ht
    refine ⟨fun u hu => (by cases hu), fun r hr => ?_⟩
    cases hr
    exact hs
  | some ib1 =>
    obtain rfl | ⟨ib2, -, rfl⟩ | ⟨h, d, acc, rfl⟩ := turn_cases ht
    · refine ⟨fun u hu => (by cases hu), fun r hr => ?_⟩
      cases hr
      exact hs
    · have hskip : ∀ ip ∈ (s.skip (ib2.getD ib1)).queue, P ip := by rwa [skip_queue]
      obtain hb | hb := badData_cases s ib1 ib2
      · rw [hb]
        refine ⟨fun u hu => (by cases hu), fun r hr => ?_⟩
        cases hr
        exact hskip
      · rw [hb]
        refine ⟨fun u hu => ?_, fun r hr => (by cases hr)⟩
        cases hu
        exact hskip
    · refine ⟨fun u hu => ?_, fun r hr => (by cases hr)⟩
      cases hu
      intro ip hip
      rw [accept_queue, List.mem_append, List.mem_singleton] at hip
      obtain hip | rfl := hip
      · exact hs ip hip
      · exact hP s ib1 h d acc

/-- **A buffer** that is processed. -/
theorem queue_processBuffer (hP : ∀ (s : Reader) ib1 h d, s.Accepted al ib1 h d → P (newPacket ib1 h d)) {fuel : Nat}
    {b : BufPtr} {r : Reader} (hs : ∀ ip ∈ s.queue, P ip) (hr : s.processBuffer fuel al b = some r) :
    ∀ ip ∈ r.queue, P ip := by
  obtain ⟨⟨t, ok⟩, ht, hr⟩ := Option.bind_eq_some_iff.1 hr
  have hq : ∀ ip ∈ t.queue, P ip := by rwa [show t.queue = s.queue from append_queue ht]
  cases ok with
  | false =>
    cases hr
    exact hq
  | true =>
    refine Loop.run_inv (fun u : Reader × Option IbPtr => ∀ ip ∈ u.1.queue, P ip) (fun r : Reader => ∀ ip ∈ r.queue, P ip)
      ?_ ?_ hq hr
    · rintro ⟨u, p⟩ u' hu hb
      exact (queue_turn hP hu hb).1 u' rfl
    · rintro ⟨u, p⟩ r hu hb
      exact (queue_turn hP hu hb).2 r rfl

end Reader

namespace Rx

variable {x x' : Rx} {fuel : Nat}

/-- The packets that are queued or held are no longer than a packet may be. -/
def Bounded (x : Rx) : Prop := ∀ ip ∈ x.unreleased, ip.data1Length + ip.data2Length ≤ bufferSize

theorem bounded_beginRead {al : Alloc} (h : x.Bounded) : (srvBeginRead al x).Bounded := by
  obtain hx | ⟨c, -, hx⟩ := beginRead_cases al x
  · rw [hx]
    exact h
  · rw [hx]
    exact h

/-- **Every event** keeps the bound. -/
theorem bounded_step {e : Event} (h : x.Bounded) (hs : x.step fuel e = some x') : x'.Bounded := by
  cases e with
  | receive al bs =>
    obtain ⟨-, rfl⟩ | ⟨b, rd, -, -, -, hp, rfl⟩ := receive_cases hs
    · exact h
    · refine bounded_beginRead fun ip hip => ?_
      obtain hip | hip := List.mem_append.1 hip
      · exact h ip (List.mem_append_left _ hip)
      · refine queue_processBuffer (s := x.rd.fill b bs) (P := fun ip => ip.data1Length + ip.data2Length ≤ bufferSize)
          (fun s ib1 k d acc => ?_) (fun ip hq => h ip (List.mem_append_right _ hq)) hp ip hip
        show d.dataLen1 + d.dataLen2 ≤ bufferSize
        rw [acc.length]
        exact acc.length_le
  | dequeue =>
    cases hs
    obtain ⟨q, n, hrd, hq⟩ := dequeue_cases x.rd
    intro ip hip
    refine h ip ?_
    rw [unreleased, ← hq, ← List.append_assoc]
    simpa only [unreleased, hrd] using hip
  | release i =>
    simp only [step] at hs
    split at hs
    · cases hs
    · cases hs
      intro ip hip
      refine h ip ?_
      obtain hip | hip := List.mem_append.1 hip
      · exact List.mem_append_left _ (List.mem_of_mem_eraseIdx hip)
      · rw [releaseInPacket_queue] at hip
        exact List.mem_append_right _ hip

/-- **A run.** -/
theorem bounded_run {al : Alloc} {ibs : IbPtr → InBuffer} {bufs : BufPtr → Buffer} {es : List Event}
    (hx : runs (step fuel) (start al ibs bufs) es = some x) : x.Bounded := by
  have hok : Along (fun _ _ => True) (step fuel) (start al ibs bufs) es := along_of_forall (fun _ _ => trivial) es _
  refine runs_inv Bounded (fun s e s' hs _ he => bounded_step hs he) (bounded_beginRead fun ip hip => ?_) hok hx
  cases hip

end Rx

namespace Control

variable {ip : InPacket}

/-- **Control packets are decoded within their payload exactly if they are whole.** Whatever the reader received and
queued, the server reads only payload of a control packet if and only if the packet is no hello that it copies, or a
hello whose last descriptor and its name end inside, and no request to send a packet again with less than two bytes. -/
theorem control_decoded (al : Alloc) (ibs : IbPtr → InBuffer) (bufs : BufPtr → Buffer) (es : List Rx.Event) (fuel : Nat)
    (x : Rx) (hx : runs (Rx.step fuel) (Rx.start al ibs bufs) es = some x) (room shouldLog : Nat → Bool)
    (beyond : List UInt8) : ∀ ip ∈ x.unreleased,
      (ReadsInside ip (handleControlPacket room shouldLog x.rd beyond ip) ↔ Decodable room shouldLog x.rd ip) := by
  intro ip hip
  have hsize := Rx.bounded_run hx ip hip
  exact readsInside_handleControlPacket (hsize.trans_lt (by decide))

/-! ### Two hellos -/

/-- A hello of version 1 that names one handler. -/
def namedHello : WirePacket := .sealed ptHello 0 1 [0, 1, 0, 1, 0, 7, 70, 83, 0] (by decide)

/-- A hello of version 1 that claims a handler and ends. -/
def shortHello : WirePacket := .sealed ptHello 0 1 [0, 1, 0, 1] (by decide)

instance (p : Place) : Decidable (p.Inside ip) := by
  cases p <;> exact Nat.decLt _ _

instance (log : Bool) (payload : List UInt8) : Decidable (Whole log payload) :=
  inferInstanceAs (Decidable (_ ∧ (_ ∨ _ ∧ (_ → _))))

instance (room shouldLog : Nat → Bool) (s : Reader) : Decidable (Decodable room shouldLog s ip) :=
  inferInstanceAs (Decidable ((_ → _ → _) ∧ (_ → _)))

theorem control_decoded_named : ∃ (x : Rx) (ip : InPacket),
    runs (Rx.step 40) Rx.fresh [.receive .unbounded namedHello.bytes] = some x ∧ ip ∈ x.unreleased ∧
      ip.type = ptHello ∧ ip.connId = defaultConnection ∧
        ∀ beyond, ReadsInside ip (handleControlPacket (fun _ => true) (fun _ => true) x.rd beyond ip) := by
  have hrun : ((runs (Rx.step 40) Rx.fresh [.receive .unbounded namedHello.bytes]).any fun x => decide
      (∃ ip ∈ x.unreleased, ip.type = ptHello ∧ ip.connId = defaultConnection ∧
        Decodable (fun _ => true) (fun _ => true) x.rd ip)) = true := by decide +kernel
  obtain ⟨x, hx, h⟩ := (Option.any_eq_true _ _).1 hrun
  obtain ⟨ip, hip, htype, hconn, hd⟩ := of_decide_eq_true h
  exact ⟨x, ip, hx, hip, htype, hconn, fun beyond =>
    (control_decoded .unbounded (fun _ => default) (fun _ => default) _ 40 x hx (fun _ => true) (fun _ => true) beyond
      ip hip).2 hd⟩

/-- **A hello may claim more than it holds**: the descriptor is read behind the end of the copy. -/
theorem control_not_decoded_short : ∃ (x : Rx) (ip : InPacket),
    runs (Rx.step 40) Rx.fresh [.receive .unbounded shortHello.bytes] = some x ∧ ip ∈ x.unreleased ∧
      ip.type = ptHello ∧ ip.connId = defaultConnection ∧ ip.data1Length + ip.data2Length = 4 ∧
        .read (.copy 4) ∈ handleControlPacket (fun _ => true) (fun _ => true) x.rd [0, 0, 0] ip ∧
        ¬ReadsInside ip (handleControlPacket (fun _ => true) (fun _ => true) x.rd [0, 0, 0] ip) := by
  have hrun : ((runs (Rx.step 40) Rx.fresh [.receive .unbounded shortHello.bytes]).any fun x => decide
      (∃ ip ∈ x.unreleased, ip.type = ptHello ∧ ip.connId = defaultConnection ∧ ip.data1Length + ip.data2Length = 4 ∧
        .read (.copy 4) ∈ handleControlPacket (fun _ => true) (fun _ => true) x.rd [0, 0, 0] ip)) = true := by
    decide +kernel
  obtain ⟨x, hx, h⟩ := (Option.any_eq_true _ _).1 hrun
  obtain ⟨ip, hip, htype, hconn, hsize, hread⟩ := of_decide_eq_true h
  refine ⟨x, ip, hx, hip, htype, hconn, hsize, hread, fun hall => ?_⟩
  have h4 : 4 < ip.data1Length + ip.data2Length := hall _ hread
  omega

end Control

end AmiPiBorg
