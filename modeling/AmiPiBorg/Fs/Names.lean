import AmiPiBorg.Fs.Steps

/-!
# Names on their way to the handler

The actions that send names append each name, with its length byte, to their request. `named` is the request that such
an action enqueues, whatever becomes of it then (`handlePacket_named`). The length byte is read with its sign, so that
only names of less than 128 characters are carried (`names_carried`): a length byte of 255 makes a name of no bytes at
all, and every other one from 128 on a copy that goes far beyond the memory of the request.
-/

set_option autoImplicit false

namespace AmiPiBorg.Fs

open ProgLib

variable {s : State} {v p r : Addr} {t : Action} {mems : List (Option Addr)} {lock : Option Addr}
  {req req' : FsRequest} {n length : UInt16} {data : List UInt8}

/-! ## The request of an action -/

/-- The arguments of a request, by their numbers. -/
def FsRequest.arg (req : FsRequest) (n : UInt16) : UInt32 :=
  if n = 1 then req.arg1 else if n = 2 then req.arg2 else if n = 3 then req.arg3 else req.arg4

/-- The request that an action with names enqueues; none where a name does not fit behind it. -/
def State.named (s : State) (v p r : Addr) : Option FsRequest :=
  let pkt := s.pkts p
  let new := newRequest s v p r pkt.type
  match pkt.type with
  | .locateObject =>
    ((new (s.bstrLen pkt.arg2)).appendArg 2 (s.bstrLen pkt.arg2) (s.bstr pkt.arg2)).map fun req =>
      { req with arg1 := s.lockKey pkt.arg1, arg3 := pkt.arg3 }
  | .findInput | .findOutput | .findUpdate | .flush =>
    ((new (s.bstrLen pkt.arg3)).appendArg 3 (s.bstrLen pkt.arg3) (s.bstr pkt.arg3)).map fun req =>
      { req with arg2 := s.lockKey pkt.arg2 }
  | .createDir | .deleteObject =>
    { new (s.bstrLen pkt.arg2) with arg1 := s.lockKey pkt.arg1 }.appendArg 2 (s.bstrLen pkt.arg2) (s.bstr pkt.arg2)
  | .renameObject =>
    ({ new (s.bstrLen pkt.arg2 + s.bstrLen pkt.arg4) with arg1 := s.lockKey pkt.arg1 }.appendArg 2
        (s.bstrLen pkt.arg2) (s.bstr pkt.arg2)).bind fun req =>
      { req with arg3 := s.lockKey pkt.arg3 }.appendArg 4 (s.bstrLen pkt.arg4) (s.bstr pkt.arg4)
  | _ => none

/-- What a request comes to, by what it is filled in with. -/
theorem request_bind {fill : FsRequest → Option FsRequest} (hfill : Fills length fill) :
    s.request v p t length (some r) fill =
      (fill (newRequest s v p r t length)).bind fun req => (s.allocating r req).enqueueRequest r := by
  cases hreq : fill (newRequest s v p r t length) with
  | none => exact request_none hreq
  | some req => exact request_eq hreq (hfill _ _ hreq).ot

/-- **An action with names** fills in its request and enqueues it. -/
theorem handlePacket_named (hm : (s.vols v).mounted = true) (hn : names (s.pkts p) ≠ []) :
    s.handlePacket v p (some r :: mems) lock =
      (s.named v p r).bind fun req => (s.allocating r req).enqueueRequest r := by
  unfold State.handlePacket State.named
  rw [if_pos hm]
  dsimp only
  cases ht : (s.pkts p).type with
  | locateObject =>
    refine request_bind (fills_append (f := fun req => req) ?_ ?_ _ _ _) <;> exact fun _ => ⟨rfl, rfl, rfl, rfl, rfl⟩
  | findInput | findOutput | findUpdate | flush =>
    dsimp only [State.actionOpen]
    rw [ht]
    refine request_bind (fills_append (f := fun req => req) ?_ ?_ _ _ _) <;> exact fun _ => ⟨rfl, rfl, rfl, rfl, rfl⟩
  | createDir | deleteObject =>
    exact request_bind (fills_append_last (f := fun req => { req with arg1 := s.lockKey (s.pkts p).arg1 })
      (fun _ => ⟨rfl, rfl, rfl, rfl, rfl⟩) _ _ _)
  | renameObject =>
    refine request_bind (fills_append_twice (f := fun req => { req with arg1 := s.lockKey (s.pkts p).arg1 })
      (g := fun req => { req with arg3 := s.lockKey (s.pkts p).arg3 }) ?_ ?_ _ _ _ _ _ _) <;>
      exact fun _ => ⟨rfl, rfl, rfl, rfl, rfl⟩
  | _ => exact absurd (by simp only [names, ht]) hn

/-! ## What should be carried -/

/-- A name with its length byte. -/
def State.nameBytes (s : State) (a : UInt32) : List UInt8 := bytesAt s.mem (baddr a) ((s.mem (baddr a)).toNat + 1)

/-- The arguments that say where the names are. -/
def slots (pkt : DosPacket) : List UInt16 :=
  match pkt.type with
  | .locateObject | .createDir | .deleteObject => [2]
  | .findInput | .findOutput | .findUpdate | .flush => [3]
  | .renameObject => [2, 4]
  | _ => []

/-- **The request carries the names** of the packet: they follow each other in the memory behind the request, its
arguments say where each of them starts, and its length is that of all of them. -/
structure Carries (s : State) (pkt : DosPacket) (req : FsRequest) : Prop where
  bytes : req.bytes = (names pkt).flatMap s.nameBytes
  room : req.room = maxWriteLen
  fits : req.bytes.length ≤ maxWriteLen
  length : req.length.toNat = req.bytes.length
  starts : (slots pkt).map (fun n => (req.arg n).toNat) =
    (List.range (names pkt).length).map fun i => (((names pkt).take i).flatMap s.nameBytes).length

/-- The name has less than 128 characters. -/
def ShortName (s : State) (a : UInt32) : Prop := (s.mem (baddr a)).toNat < 128

instance (a : UInt32) : Decidable (ShortName s a) := by unfold ShortName; infer_instance

/-! ## The length byte -/

/-- What becomes of a length byte. -/
theorem bstrLen_cases (s : State) (a : UInt32) :
    ShortName s a ∧ (s.bstrLen a).toNat = (s.mem (baddr a)).toNat + 1 ∨
      ¬ShortName s a ∧ ((s.bstrLen a).toNat = 0 ∨ 512 < (s.bstrLen a).toNat) := by
  have hall : ∀ n < 256, n < 128 ∧ ((UInt8.ofNat n).toInt8.toInt16.toUInt16 + 1).toNat = n + 1 ∨
      ¬n < 128 ∧ (((UInt8.ofNat n).toInt8.toInt16.toUInt16 + 1).toNat = 0 ∨
        512 < ((UInt8.ofNat n).toInt8.toInt16.toUInt16 + 1).toNat) := by decide +kernel
  have h := hall _ (s.mem (baddr a)).toNat_lt
  rw [UInt8.ofNat_toNat] at h
  exact h

theorem ShortName.bstrLen {a : UInt32} (h : ShortName s a) : (s.bstrLen a).toNat = (s.mem (baddr a)).toNat + 1 := by
  obtain ⟨-, hl⟩ | ⟨hn, -⟩ := bstrLen_cases s a
  · exact hl
  · exact absurd h hn

theorem ShortName.bstr {a : UInt32} (h : ShortName s a) : s.bstr a = s.nameBytes a := by
  rw [State.bstr, State.nameBytes, h.bstrLen]

/-- A name is short if as many bytes are copied as it has. -/
theorem shortName_of_length {a : UInt32} (h : (s.bstrLen a).toNat = (s.mem (baddr a)).toNat + 1) : ShortName s a := by
  obtain ⟨hs, -⟩ | ⟨-, h0 | hlt⟩ := bstrLen_cases s a
  · exact hs
  · omega
  · have := (s.mem (baddr a)).toNat_lt
    omega

/-! ## Appending -/

/-- What is appended, and where. -/
structure Appends (n length : UInt16) (data : List UInt8) (req req' : FsRequest) : Prop where
  bytes : req'.bytes = req.bytes ++ data
  ot : req'.ot = req.ot
  fits : req.length.toNat + length.toNat ≤ req.room
  start : req'.arg n = req.length.toUInt32
  grows : req'.length = req.length + length

theorem appendArg_appends (h : req.appendArg n length data = some req') (hn : n = 2 ∨ n = 3 ∨ n = 4) :
    Appends n length data req req' := by
  unfold FsRequest.appendArg at h
  split at h
  · cases h
  · rename_i hfits
    cases h
    obtain rfl | rfl | rfl := hn <;> exact ⟨rfl, rfl, Nat.not_lt.1 hfits, rfl, rfl⟩

theorem room_of_ot (h : req'.ot = req.ot) : req'.room = req.room := by rw [FsRequest.room, FsRequest.room, h]

/-- What a request with names holds. -/
inductive Holds (s : State) (pkt : DosPacket) (req : FsRequest) : Prop
  | one (n : UInt16) (a : UInt32) (names : names pkt = [a]) (slots : slots pkt = [n]) (bytes : req.bytes = s.bstr a)
    (length : req.length = s.bstrLen a) (ot : req.ot = State.requestType (s.bstrLen a))
    (fits : (s.bstrLen a).toNat ≤ req.room) (start : req.arg n = 0)
  | two (a b : UInt32) (names : names pkt = [a, b]) (slots : slots pkt = [2, 4])
    (bytes : req.bytes = s.bstr a ++ s.bstr b) (length : req.length = s.bstrLen a + s.bstrLen b)
    (ot : req.ot = State.requestType (s.bstrLen a + s.bstrLen b))
    (fits : (s.bstrLen a).toNat + (s.bstrLen b).toNat ≤ req.room) (start : req.arg 2 = 0)
    (next : req.arg 4 = (s.bstrLen a).toUInt32)

/-- A request that one name is appended to. -/
theorem Appends.holds {pkt : DosPacket} {a : UInt32} {new : FsRequest}
    (h : Appends n (s.bstrLen a) (s.bstr a) new req) (hnew : new.bytes = [] ∧ new.length = 0)
    (hot : new.ot = State.requestType (s.bstrLen a)) (hnames : names pkt = [a]) (hslots : slots pkt = [n])
    (hb : req'.bytes = req.bytes) (hl : req'.length = req.length) (ho : req'.ot = req.ot) (ha : req'.arg n = req.arg n) :
    Holds s pkt req' := by
  have hfits := h.fits
  rw [hnew.2, show (0 : UInt16).toNat = 0 from rfl, Nat.zero_add] at hfits
  refine .one n a hnames hslots ?_ ?_ ?_ ?_ ?_
  · rw [hb, h.bytes, hnew.1, List.nil_append]
  · rw [hl, h.grows, hnew.2, UInt16.zero_add]
  · rw [ho, h.ot, hot]
  · rw [room_of_ot (ho.trans h.ot)]
    exact hfits
  · rw [ha, h.start, hnew.2]
    rfl

/-- **What is appended to the request.** -/
theorem named_holds (h : s.named v p r = some req) : Holds s (s.pkts p) req := by
  unfold State.named at h
  dsimp only at h
  cases ht : (s.pkts p).type with
  | locateObject =>
    rw [ht] at h
    obtain ⟨req₁, h₁, rfl⟩ := Option.map_eq_some_iff.1 h
    exact (appendArg_appends h₁ (.inl rfl)).holds ⟨rfl, rfl⟩ rfl (by simp only [names, ht]) (by simp only [slots, ht])
      rfl rfl rfl rfl
  | findInput | findOutput | findUpdate | flush =>
    rw [ht] at h
    obtain ⟨req₁, h₁, rfl⟩ := Option.map_eq_some_iff.1 h
    exact (appendArg_appends h₁ (.inr (.inl rfl))).holds ⟨rfl, rfl⟩ rfl (by simp only [names, ht])
      (by simp only [slots, ht]) rfl rfl rfl rfl
  | createDir | deleteObject =>
    rw [ht] at h
    exact (appendArg_appends h (.inl rfl)).holds ⟨rfl, rfl⟩ rfl (by simp only [names, ht]) (by simp only [slots, ht])
      rfl rfl rfl rfl
  | renameObject =>
    rw [ht] at h
    obtain ⟨req₁, h₁, h₂⟩ := Option.bind_eq_some_iff.1 h
    have a₁ := appendArg_appends h₁ (.inl rfl)
    have a₂ := appendArg_appends h₂ (.inr (.inr rfl))
    have hl₁ : req₁.length = s.bstrLen (s.pkts p).arg2 := a₁.grows.trans (UInt16.zero_add _)
    have h2 : req.arg 2 = req₁.arg 2 := by
      unfold FsRequest.appendArg at h₂
      split at h₂
      · cases h₂
      · cases h₂
        rfl
    refine .two (s.pkts p).arg2 (s.pkts p).arg4 (by simp only [names, ht]) (by simp only [slots, ht]) ?_ ?_ ?_ ?_ ?_ ?_
    · rw [a₂.bytes, show req₁.bytes = s.bstr (s.pkts p).arg2 from a₁.bytes]
    · rw [a₂.grows, hl₁]
    · rw [a₂.ot, show req₁.ot = _ from a₁.ot]
      rfl
    · have hfits := a₂.fits
      rw [← room_of_ot a₂.ot] at hfits
      rwa [show _ = s.bstrLen (s.pkts p).arg2 from hl₁] at hfits
    · rw [h2, a₁.start]
      rfl
    · rw [a₂.start, hl₁]
  | _ =>
    rw [ht] at h
    cases h

/-- **Short names fit.** -/
theorem named_isSome (hn : names (s.pkts p) ≠ []) (hs : ∀ a ∈ names (s.pkts p), ShortName s a) :
    (s.named v p r).isSome := by
  have hfits : ∀ a ∈ names (s.pkts p), NameFits s a := fun a ha => by
    have hlt : (s.mem (baddr a)).toNat < 128 := hs a ha
    unfold NameFits
    rw [(hs a ha).bstrLen]
    omega
  unfold State.named
  dsimp only
  cases ht : (s.pkts p).type with
  | locateObject =>
    rw [Option.isSome_map]
    exact append_newRequest _ (hfits _ (by simp [names, ht])).le r (f := fun req => req)
      fun _ => ⟨rfl, rfl, rfl, rfl, rfl⟩
  | findInput | findOutput | findUpdate | flush =>
    dsimp only
    rw [Option.isSome_map]
    exact append_newRequest _ (hfits _ (by simp [names, ht])).le r (f := fun req => req)
      fun _ => ⟨rfl, rfl, rfl, rfl, rfl⟩
  | createDir | deleteObject =>
    exact append_newRequest _ (hfits _ (by simp [names, ht])).le r
      (f := fun req => { req with arg1 := s.lockKey (s.pkts p).arg1 }) fun _ => ⟨rfl, rfl, rfl, rfl, rfl⟩
  | renameObject =>
    exact append_twice _ _ (hfits _ (by simp [names, ht])) (hfits _ (by simp [names, ht])) r
      (f := fun req => { req with arg1 := s.lockKey (s.pkts p).arg1 })
      (g := fun req => { req with arg3 := s.lockKey (s.pkts p).arg3 }) (fun _ => ⟨rfl, rfl, rfl, rfl, rfl⟩)
      fun _ => ⟨rfl, rfl, rfl, rfl, rfl⟩
  | _ => exact absurd (by simp only [names, ht]) hn

/-! ## The result -/

/-- A request for at least one byte has room for as many as there are in a write. -/
theorem room_of_requestType (ho : req.ot = State.requestType length) (hl : 0 < length.toNat) : req.room = maxWriteLen := by
  have hpos : length > 0 := UInt16.lt_iff_toNat_lt.2 hl
  rw [FsRequest.room, ho, State.requestType, if_pos hpos, if_pos rfl]

theorem length_bstr (s : State) (a : UInt32) : (s.bstr a).length = (s.bstrLen a).toNat := length_bytesAt ..

theorem length_nameBytes (s : State) (a : UInt32) : (s.nameBytes a).length = (s.mem (baddr a)).toNat + 1 :=
  length_bytesAt ..

/-- **What a request holds is the names exactly if they are short.** -/
theorem Holds.carries_iff {pkt : DosPacket} (h : Holds s pkt req) :
    Carries s pkt req ↔ ∀ a ∈ names pkt, ShortName s a := by
  cases h with
  | one n a hnames hslots hbytes hlength hot hfits hstart =>
    rw [hnames, List.forall_mem_singleton]
    constructor
    · intro hc
      have hb := congrArg List.length hc.bytes
      rw [hbytes, hnames, List.flatMap_singleton, length_bstr, length_nameBytes] at hb
      exact shortName_of_length hb
    · intro hs
      have hroom := room_of_requestType hot (by rw [hs.bstrLen]; omega)
      have hb : req.bytes = s.nameBytes a := hbytes.trans hs.bstr
      refine ⟨?_, hroom, ?_, ?_, ?_⟩
      · rw [hnames, List.flatMap_singleton, hb]
      · rw [hbytes, length_bstr, ← hroom]
        exact hfits
      · rw [hlength, hbytes, length_bstr]
      · rw [hslots, hnames, List.map_singleton, hstart]
        rfl
  | two a b hnames hslots hbytes hlength hot hfits hstart hnext =>
    rw [hnames, List.forall_mem_cons, List.forall_mem_singleton]
    constructor
    · intro hc
      have hst := hc.starts
      have hb := congrArg List.length hc.bytes
      rw [hslots, hnames] at hst
      rw [hbytes, hnames, List.length_append, List.flatMap_cons, List.flatMap_singleton, List.length_append,
        length_bstr, length_bstr, length_nameBytes, length_nameBytes] at hb
      -- the second name starts where the first one ends
      have ha : (s.bstrLen a).toNat = (s.mem (baddr a)).toNat + 1 := by
        have hnd : (req.arg 4).toNat = (([a, b].take 1).flatMap s.nameBytes).length :=
          (List.cons.inj (List.cons.inj hst).2).1
        rw [hnext, UInt16.toNat_toUInt32, List.take_succ_cons, List.take_zero, List.flatMap_singleton,
          length_nameBytes] at hnd
        exact hnd
      exact ⟨shortName_of_length ha, shortName_of_length (by omega)⟩
    · rintro ⟨hs, hs'⟩
      have hsum : (s.bstrLen a + s.bstrLen b).toNat = (s.bstrLen a).toNat + (s.bstrLen b).toNat := by
        have h₁ : (s.mem (baddr a)).toNat < 128 := hs
        have h₂ : (s.mem (baddr b)).toNat < 128 := hs'
        rw [UInt16.toNat_add, hs.bstrLen, hs'.bstrLen]
        exact Nat.mod_eq_of_lt (by omega)
      have hroom := room_of_requestType hot (by rw [hsum, hs.bstrLen]; omega)
      have hb : req.bytes = s.nameBytes a ++ s.nameBytes b := by rw [hbytes, hs.bstr, hs'.bstr]
      refine ⟨?_, hroom, ?_, ?_, ?_⟩
      · rw [hnames, List.flatMap_cons, List.flatMap_singleton, hb]
      · rw [hbytes, List.length_append, length_bstr, length_bstr, ← hroom]
        exact hfits
      · rw [hlength, hsum, hbytes, List.length_append, length_bstr, length_bstr]
      · rw [hslots, hnames, List.map_cons, List.map_singleton, hstart, hnext, UInt16.toNat_toUInt32, hs.bstrLen]
        simp [List.range_succ, length_nameBytes]

/-- **Names are carried exactly if they have less than 128 characters.** For every action that sends names, whatever the
state is: the request that it enqueues carries all of them if and only if each of them is short. -/
theorem names_carried (s : State) (v p r : Addr) (mems : List (Option Addr)) (lock : Option Addr)
    (hm : (s.vols v).mounted = true) (hn : names (s.pkts p) ≠ []) :
    s.handlePacket v p (some r :: mems) lock =
        ((s.named v p r).bind fun req => (s.allocating r req).enqueueRequest r) ∧
      ((∃ req, s.named v p r = some req ∧ Carries s (s.pkts p) req) ↔ ∀ a ∈ names (s.pkts p), ShortName s a) := by
  refine ⟨handlePacket_named hm hn, fun h => ?_, fun hs => ?_⟩
  · obtain ⟨req, hreq, hc⟩ := h
    exact (named_holds hreq).carries_iff.1 hc
  · obtain ⟨req, hreq⟩ := Option.isSome_iff_exists.1 (named_isSome (v := v) (r := r) hn hs)
    exact ⟨req, hreq, (named_holds hreq).carries_iff.2 hs⟩

/-- A file whose name has `n` characters is to be renamed to one of three characters. -/
def renameFrom (n : UInt8) : State :=
  { blank with
    mem := fun a => if a = 400 then n else if a = 800 then 3 else 65
    pkts := fun _ => ⟨.dos 0, .renameObject, 0, 0, 0, 100, 0, 200⟩
    vols := fun _ => ⟨1, 0, true, 8192⟩ }

theorem names_carried_rename : ∃ req, (renameFrom 127).named 4096 500 600 = some req ∧
    Carries (renameFrom 127) ((renameFrom 127).pkts 500) req :=
  (names_carried (renameFrom 127) 4096 500 600 [] none rfl (by decide)).2.2 (by decide +kernel)

/-- **Longer names**: with a length byte of 255 the first name is not sent, and the second one stands in its place. With
128, the copy goes beyond the memory. -/
theorem names_not_carried : (∃ req, (renameFrom 255).named 4096 500 600 = some req ∧ req.arg 2 = 0 ∧ req.arg 4 = 0 ∧
      req.length = 4 ∧ ¬Carries (renameFrom 255) ((renameFrom 255).pkts 500) req) ∧
    (renameFrom 128).named 4096 500 600 = none := by
  have h₁ : ((renameFrom 255).named 4096 500 600).map (fun req => (req.arg 2, req.arg 4, req.length)) =
      some (0, 0, 4) := by decide +kernel
  have h₂ : (renameFrom 128).named 4096 500 600 = none := by decide +kernel
  refine ⟨?_, h₂⟩
  obtain ⟨req, hreq, hb⟩ := Option.map_eq_some_iff.1 h₁
  obtain ⟨ha₂, hb⟩ := Prod.mk.inj hb
  obtain ⟨ha₄, hl⟩ := Prod.mk.inj hb
  refine ⟨req, hreq, ha₂, ha₄, hl, fun hc => ?_⟩
  have hlen := hc.length
  rw [hl, hc.bytes] at hlen
  exact absurd hlen (by decide +kernel)

end AmiPiBorg.Fs
