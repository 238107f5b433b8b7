import AmiPiBorg.Fs.Reads
import AmiPiBorg.Pool.Supply

/-!
# When requests run out

The requests of the client come from the object pool of its context, where `FS_CreateDevice` has registered two types for
them with at most a hundred objects each. `answers` is what `FS_AllocRequest` gives the requests of one packet.

No action looks whether it got a request, so each is defined only where it got all (`handlePacket_takes`). The client
comes through an action if and only if the pool has an object for every request (`exhaustion_survived_iff`).
-/

set_option autoImplicit false

namespace AmiPiBorg.Fs

open ProgLib Objects

variable {s s' s₁ : State} {v p r : Addr} {t : Action} {mems : List (Option Addr)} {lock : Option Addr} {id : UInt16}
  {k : Nat} {o : Option State}

/-! ## What an action takes from the pool -/

/-- The object type from which an action allocates. -/
def requestTypeOf (s : State) (p : Addr) : UInt16 :=
  let pkt := s.pkts p
  match pkt.type with
  | .locateObject | .createDir | .deleteObject => State.requestType (s.bstrLen pkt.arg2)
  | .findInput | .findOutput | .findUpdate | .flush => State.requestType (s.bstrLen pkt.arg3)
  | .renameObject => State.requestType (s.bstrLen pkt.arg2 + s.bstrLen pkt.arg4)
  | .write => otRequestMax
  | _ => otRequestMin

/-- With the outcome `o`, `k` requests of the type `id` were allocated, and none of them is missing. -/
structure Takes (id : UInt16) (k : Nat) (mems : List (Option Addr)) (s : State) (o : Option State) : Prop where
  defined : o.isSome → HasMemory k mems
  allocated : ∀ s' ∈ o, s'.allocated = s.allocated ++ (mems.take k).reduceOption.map fun r => (r, id)

theorem HasMemory.zero (mems : List (Option Addr)) : HasMemory 0 mems := Nat.zero_le _

/-- All of the memory is there where as much as there is of it is needed. -/
theorem HasMemory.all (h : HasMemory mems.length mems) : none ∉ mems := by
  induction mems with
  | nil => exact List.not_mem_nil
  | cons mem mems ih =>
    obtain ⟨r, mems', he, h'⟩ := h.cons
    cases he
    simpa using ih h'

/-- Nothing is allocated. -/
theorem Takes.zero (h : s₁.allocated = s.allocated) : Takes id 0 mems s (some s₁) := by
  refine ⟨fun _ => .zero mems, fun s' hs => ?_⟩
  cases hs
  simpa using h

theorem Takes.congr (h : Takes id k mems s₁ o) (hs : s₁.allocated = s.allocated) : Takes id k mems s o :=
  ⟨h.defined, fun s' h' => hs ▸ h.allocated s' h'⟩

theorem Takes.map {f : State → State} (h : Takes id k mems s o) (hf : ∀ s, (f s).allocated = s.allocated) :
    Takes id k mems s (o.map f) := by
  refine ⟨fun hs => h.defined (by simpa using hs), ?_⟩
  intro s' hs
  obtain ⟨s₁, h₁, rfl⟩ := Option.map_eq_some_iff.1 hs
  rw [hf, h.allocated s₁ h₁]

/-- One request, and then the others. -/
theorem Takes.bind {mem : Option Addr} {f : State → Option State} (h : Takes id 1 (mem :: mems) s o)
    (hf : ∀ s₁, Takes id k mems s₁ (f s₁)) : Takes id (k + 1) (mem :: mems) s (o.bind f) := by
  cases o with
  | none => exact ⟨fun h => (by cases h), fun _ h => (by cases h)⟩
  | some s₁ =>
    obtain ⟨r, mems', he, -⟩ := (h.defined rfl).cons
    cases he
    refine ⟨fun hs => Nat.succ_le_succ ((hf s₁).defined hs), fun s' hs => ?_⟩
    rw [(hf s₁).allocated s' hs, h.allocated s₁ rfl]
    simp [List.reduceOption_cons_of_some]

/-- **An action that asks for one request** is not defined where there is none. -/
theorem request_takes {length : UInt16} {fill : FsRequest → Option FsRequest} (hs : s₁.allocated = s.allocated)
    (hid : State.requestType length = id) : Takes id 1 mems s (s₁.request v p t length mems.head?.join fill) := by
  subst hid
  unfold State.request State.allocRequest
  match mems with
  | [] => exact ⟨fun h => (by cases h), fun _ h => (by cases h)⟩
  | none :: mems => exact ⟨fun h => (by cases h), fun _ h => (by cases h)⟩
  | some r :: mems =>
    refine ⟨fun _ => Nat.le_add_left 1 _, fun s' h => ?_⟩
    dsimp only [List.head?_cons, Option.join_some] at h
    split at h
    · cases h
    · obtain ⟨links, written, ready, queued, unanswered, rfl⟩ := enqueueRequest_frame h
      simp [State.setReq, hs, List.reduceOption_cons_of_some]

/-! ## The actions -/

/-- **The loop of `FS_ActionWrite`.** -/
theorem writeChunks_takes : ∀ (mems : List (Option Addr)) (s : State) (data : Addr) (n : Nat),
    Takes otRequestMax ((n + (maxWriteLen - 1)) / maxWriteLen) mems s (State.writeChunks v p mems s data n)
  | [], _, _, 0 => .zero rfl
  | _ :: _, _, _, 0 => .zero rfl
  | [], _, _, _ + 1 => ⟨fun h => (by cases h), fun _ h => (by cases h)⟩
  | mem :: mems, s, data, n + 1 => by
    have hk : (n + 1 + (maxWriteLen - 1)) / maxWriteLen = (n + 1 - min (n + 1) maxWriteLen + (maxWriteLen - 1)) /
        maxWriteLen + 1 := by unfold maxWriteLen; omega
    have hlen : (UInt16.ofNat (min (n + 1) maxWriteLen)).toNat = min (n + 1) maxWriteLen :=
      toNat_ofNat_chunk (Nat.min_le_right ..)
    have hid : State.requestType (UInt16.ofNat (min (n + 1) maxWriteLen)) = otRequestMax := by
      refine if_pos (UInt16.lt_iff_toNat_lt.2 ?_)
      rw [hlen]
      exact Nat.lt_min.2 ⟨n.succ_pos, by decide⟩
    have hone : Takes otRequestMax 1 (mem :: mems) s (s.writeChunk v p data (n + 1) mem) := by
      unfold State.writeChunk
      exact request_takes rfl hid
    rw [hk]
    exact hone.bind fun s₁ => writeChunks_takes mems s₁ _ _

theorem actionFreeLock_takes : Takes otRequestMin (if s.lockKey (s.pkts p).arg1 = 0 then 0 else 1) mems s
    (s.actionFreeLock v p mems.head?.join) := by
  unfold State.actionFreeLock
  dsimp only
  split
  · refine .zero ?_
    rw [replyToDosPacket_eq]
    rfl
  · exact request_takes rfl rfl

theorem actionCopyDir_allocated : (s.actionCopyDir v p lock).allocated = s.allocated := by
  unfold State.actionCopyDir State.allocLock
  cases lock with
  | none => rfl
  | some l =>
    dsimp only
    split <;> rfl

theorem reply_allocated (s : State) (v : Addr) (r : Option Addr) (p : Addr) :
    (s.replyToDosPacket v r p).allocated = s.allocated := by rw [replyToDosPacket_eq]

/-- **What `FS_HandlePacket` takes** from the pool. -/
theorem handlePacket_takes :
    Takes (requestTypeOf s p) (needed s v p) mems s (s.handlePacket v p mems lock) := by
  unfold needed requestTypeOf State.handlePacket
  dsimp only
  by_cases hm : (s.vols v).mounted = true
  · rw [if_pos hm, if_pos hm]
    cases ht : (s.pkts p).type with
    | freeLock => exact actionFreeLock_takes
    | copyDir => exact .zero ((reply_allocated ..).trans actionCopyDir_allocated)
    | isFilesystem | setProtect | setComment | setDate | currentVolume | other => exact .zero (reply_allocated ..)
    | sameLock =>
      dsimp only [State.actionSameLock]
      split
      · exact .zero (reply_allocated ..)
      · exact request_takes rfl rfl
    | examineObject =>
      dsimp only [State.actionExamine]
      split
      · exact .zero (reply_allocated ..)
      · exact request_takes rfl rfl
    | diskInfo | info =>
      dsimp only [State.actionInfo]
      rw [if_pos hm]
      exact request_takes rfl rfl
    | examineNext =>
      dsimp only [State.actionExamineNext]
      split <;> exact request_takes rfl rfl
    | «end» =>
      refine Takes.map ?_ fun s => reply_allocated s v none p
      exact request_takes rfl rfl
    | write => exact (writeChunks_takes mems (s.setRes1 p 0) _ _).congr rfl
    | parent | parentFh =>
      dsimp only [State.actionParent, State.actionParentFh, State.parentRequest]
      exact request_takes rfl rfl
    | createDir | deleteObject =>
      dsimp only [State.actionCreateDir, State.actionDeleteObject, State.nameRequest]
      exact request_takes rfl rfl
    | _ =>
      dsimp only [State.actionLocateObject, State.actionOpen, State.actionExamineFh, State.actionRead, State.actionSeek,
        State.actionFhFromLock, State.actionRenameObject]
      exact request_takes rfl rfl
  · rw [if_neg hm, if_neg hm]
    cases ht : (s.pkts p).type with
    | freeLock => exact actionFreeLock_takes
    | diskInfo =>
      dsimp only [State.actionInfo]
      rw [if_neg hm]
      exact .zero (reply_allocated ..)
    | _ => exact .zero (reply_allocated ..)

/-! ## Pools that run out -/

/-- What `FS_CreateDevice` registers for requests. -/
def registerRequests (mem mem' : List (Option Nat)) : List ObjectPool.Call :=
  [.register otRequestMin sizeofFsRequest 1 100 mem,
    .register otRequestMax (sizeofFsRequest + UInt16.ofNat maxWriteLen) 1 100 mem']

/-- How many objects there may be of the types that it registers so. -/
def requestLimit (id : UInt16) : Option UInt16 := if id = otRequestMin ∨ id = otRequestMax then some 100 else none

/-- What `FS_AllocRequest` answers to an action, where `mems` is the memory that there is each time. -/
def answers (op : ObjectPool) (s : State) (p : Addr) (mems : List (Option Nat)) : List (Option Addr) :=
  (ObjectPool.allocObjects (requestTypeOf s p) op mems).map (Option.map UInt32.ofNat)

/-- The action is defined, its packet is replied to with an error, and not a second time before it is sent again. -/
def Survives (s : State) (v p : Addr) (mems : List (Option Addr)) (lock : Option Addr) : Prop :=
  ∃ s', s.handlePacket v p mems lock = some s' ∧ s'.replied.count p = s.replied.count p + 1 ∧
    (s'.pkts p).res1 = (if (s.pkts p).type = .write then minusOne else dosFalse) ∧ (s'.pkts p).res2 ≠ 0 ∧
    ∀ es t, (∀ v pkt, .arrive v p pkt ∉ es) → Along Legal step s' es → runs step s' es = some t →
      t.replied.count p = s'.replied.count p

theorem requestLimit_requestTypeOf (s : State) (p : Addr) : requestLimit (requestTypeOf s p) = some 100 := by
  have hlen : ∀ length, requestLimit (State.requestType length) = some 100 := by
    intro length
    unfold State.requestType
    split <;> rfl
  unfold requestTypeOf
  dsimp only
  split <;> first | exact hlen _ | rfl

/-- **No action comes through without a request that it needs.** -/
theorem handlePacket_exhausted {mems : List (Option Nat)} {op : ObjectPool} (hk : mems.length = needed s v p)
    (hn : none ∈ answers op s p mems) : s.handlePacket v p (answers op s p mems) lock = none := by
  by_contra hne
  have hm := handlePacket_takes.defined (Option.isSome_iff_ne_none.2 hne)
  have hlen : (answers op s p mems).length = needed s v p := by
    rw [← hk]
    simp [answers]
  rw [← hlen] at hm
  exact hm.all hn

theorem not_survives {mems : List (Option Nat)} {op : ObjectPool} (hk : mems.length = needed s v p)
    (hn : none ∈ answers op s p mems) : ¬Survives s v p (answers op s p mems) lock := by
  rintro ⟨s', hs, -⟩
  rw [handlePacket_exhausted hk hn] at hs
  cases hs

/-- Every request is there if and only if no answer is the null pointer. -/
theorem none_notMem_answers {op : ObjectPool} {mems : List (Option Nat)} : none ∉ answers op s p mems ↔
    ∀ a ∈ ObjectPool.allocObjects (requestTypeOf s p) op mems, a.isSome := by
  unfold answers
  constructor
  · intro h a ha
    cases a with
    | none => exact absurd (List.mem_map.2 ⟨none, ha, rfl⟩) h
    | some r => rfl
  · intro h hm
    obtain ⟨a, ha, he⟩ := List.mem_map.1 hm
    have hs := h a ha
    rw [Option.map_eq_none_iff.1 he] at hs
    cases hs

/-- **When the client comes through an action** for which there may be no more requests: if and only if the pool has an
object for each request, after every run of calls to it. -/
theorem exhaustion_survived_iff {addr : Nat} {cs : List ObjectPool.Call} {op : ObjectPool}
    (hl : Along (ObjectPool.Proper requestLimit) ObjectPool.step (.createObjectPool addr) cs)
    (hr : runs ObjectPool.step (.createObjectPool addr) cs = some op) (s : State) (v p : Addr) (lock : Option Addr)
    {mems : List (Option Nat)} (hk : mems.length = needed s v p) :
    (none ∈ answers op s p mems → Survives s v p (answers op s p mems) lock) ↔
      op.Supplies (requestTypeOf s p) 100 mems := by
  obtain ⟨ho, hm⟩ := ObjectPool.proper_run hl hr
  have hmax : ∀ ot ∈ op.getObjectType (requestTypeOf s p), ot.maxInstances = 100 := by
    intro ot hot
    obtain ⟨hmem, hid⟩ := ObjectPool.getObjectType_some hot
    refine hm ot hmem 100 ?_
    rw [hid]
    exact requestLimit_requestTypeOf s p
  rw [← show (100 : UInt16).toNat = 100 from rfl, ← ho.allocObjects_iff hmax mems, ← none_notMem_answers]
  constructor
  · intro h hn
    exact not_survives hk hn (h hn)
  · intro h hn
    exact absurd hn h

/-- Ten bytes are to be read from a volume that is mounted. -/
def mounted : State := { reading with vols := fun _ => ⟨1, 0, true, 8192⟩ }

/-- The volume is mounted, and 51201 bytes are to be written. -/
def longWrite : List Event := [mountFirst, .arrive 4096 100 ⟨.dos 0, .write, 0, 0, 7, 1000, 51201, 0⟩]

/-- **A write of 101 pieces** asks for more requests than there may be, however much memory there is. -/
theorem exhaustion_not_survived : ¬∀ (cs : List ObjectPool.Call) (op : ObjectPool) (es : List Event) (s : State)
    (mems : List (Option Nat)), Along (ObjectPool.Proper requestLimit) ObjectPool.step (.createObjectPool 500) cs →
    runs ObjectPool.step (.createObjectPool 500) cs = some op → Along Legal step blank es → runs step blank es = some s →
    mems.length = needed s 4096 100 → none ∈ answers op s 100 mems → Survives s 4096 100 (answers op s 100 mems) none := by
  intro h
  let cs := registerRequests [some 1000, some 1100] [some 1200, some 1300]
  let mems : List (Option Nat) := (List.range 101).map fun i => some (10000 + 600 * i)
  obtain ⟨op, hop⟩ : ∃ op, runs ObjectPool.step (.createObjectPool 500) cs = some op :=
    Option.isSome_iff_exists.1 (by decide +kernel)
  obtain ⟨s, hs⟩ : ∃ s, runs step blank longWrite = some s := Option.isSome_iff_exists.1 (by decide +kernel)
  have hpkt : (runs step blank longWrite).any (fun s => needed s 4096 100 = 101 ∧ requestTypeOf s 100 = otRequestMax) =
      true := by decide +kernel
  have hnull : (runs ObjectPool.step (.createObjectPool 500) cs).any (fun op =>
      none ∈ ObjectPool.allocObjects otRequestMax op mems) = true := by decide +kernel
  rw [hs, Option.any_some, decide_eq_true_eq] at hpkt
  rw [hop, Option.any_some, decide_eq_true_eq] at hnull
  obtain ⟨hneed, htype⟩ := hpkt
  have hk : mems.length = needed s 4096 100 := by rw [hneed]; rfl
  have hn : none ∈ answers op s 100 mems := by
    unfold answers
    rw [htype]
    exact List.mem_map.2 ⟨none, hnull, rfl⟩
  exact not_survives hk hn (h cs op longWrite s mems (by decide +kernel) hop (by decide +kernel) hs hk hn)

/-- The one object for requests without data is in use, and there is no memory when something is to be read. -/
theorem exhaustion_survived_iff_read : ∃ op : ObjectPool, runs ObjectPool.step (.createObjectPool 500)
      (registerRequests [some 1000, some 1100] [some 1200, some 1300] ++ [.alloc otRequestMin none]) = some op ∧
    ¬(none ∈ answers op mounted 100 [none] → Survives mounted 4096 100 (answers op mounted 100 [none]) none) := by
  obtain ⟨op, hop⟩ : ∃ op, runs ObjectPool.step (.createObjectPool 500)
      (registerRequests [some 1000, some 1100] [some 1200, some 1300] ++ [.alloc otRequestMin none]) = some op :=
    Option.isSome_iff_exists.1 (by decide +kernel)
  have hsup : (runs ObjectPool.step (.createObjectPool 500)
      (registerRequests [some 1000, some 1100] [some 1200, some 1300] ++ [.alloc otRequestMin none])).any (fun op =>
      ¬op.Supplies otRequestMin 100 [none]) = true := by decide +kernel
  rw [hop, Option.any_some, decide_eq_true_eq] at hsup
  exact ⟨op, hop, fun h => hsup ((exhaustion_survived_iff (by decide +kernel) hop mounted 4096 100 none
    (by decide +kernel)).1 h)⟩

end AmiPiBorg.Fs
