import AmiPiBorg.Fs.Outcomes

/-!
# Steps that are defined and keep the requests in order

`Safe` says when a step goes through no null pointer and writes nowhere beyond its memory, and `Apart` when it leaves
the links of `fs_Reqs` alone. Such a step is defined (`step_defined`), and keeps `Core` (`Core.step`) and the requests
fitting their packets (`Fit.step`) as long as DOS does not reuse a packet that there are still requests for (`Unused`).
-/

set_option autoImplicit false

namespace AmiPiBorg.Fs

open ProgLib

variable {s s' s₁ : State} {v p r : Addr} {t : Action} {mems : List (Option Addr)} {lock : Option Addr}
  {res : FsResponse} {e : Event}

/-! ## Conditions -/

/-- The names that an action sends. -/
def names (pkt : DosPacket) : List UInt32 :=
  match pkt.type with
  | .locateObject | .createDir | .deleteObject => [pkt.arg2]
  | .findInput | .findOutput | .findUpdate | .flush => [pkt.arg3]
  | .renameObject => [pkt.arg2, pkt.arg4]
  | _ => []

/-- The length byte of the name is less than 128, or 255, which counts as no name at all. -/
def NameFits (s : State) (arg : UInt32) : Prop := (s.bstrLen arg).toNat ≤ 128

instance (s : State) (arg : UInt32) : Decidable (NameFits s arg) := by unfold NameFits; infer_instance

/-- How many requests a packet needs. -/
def needed (s : State) (v p : Addr) : Nat :=
  let pkt := s.pkts p
  let byKey (key key' : UInt32) : Nat := if key = key' then 0 else 1
  if (s.vols v).mounted then
    match pkt.type with
    | .copyDir | .isFilesystem | .setProtect | .setComment | .setDate | .currentVolume | .other _ => 0
    | .freeLock | .examineObject => byKey (s.lockKey pkt.arg1) 0
    | .sameLock => byKey (s.lockKey pkt.arg1) (s.lockKey pkt.arg2)
    | .write => (State.bytesToWrite pkt + (maxWriteLen - 1)) / maxWriteLen
    | _ => 1
  else
    match pkt.type with
    | .freeLock => byKey (s.lockKey pkt.arg1) 0
    | _ => 0

/-- The first `k` allocations succeed. -/
def HasMemory (k : Nat) (mems : List (Option Addr)) : Prop := k ≤ (mems.takeWhile Option.isSome).length

instance (k : Nat) (mems : List (Option Addr)) : Decidable (HasMemory k mems) := by unfold HasMemory; infer_instance

/-- Nothing goes through a null pointer or beyond the memory. -/
def Safe (s : State) : Event → Prop
  | .dos v mems _ => ∀ m ∈ s.msgs.find? fun m => m.1 = v, HasMemory (needed s v m.2) mems ∧
      ((s.vols v).mounted = true → ∀ a ∈ names (s.pkts m.2), NameFits s a)
  | .response res lock _ => res.req ∈ s.unanswered →
      let pkt := s.pkts (s.reqs res.req).pkt
      (pkt.type = .createDir → res.res1 ≠ dosFalse → lock.isSome = true) ∧
        (pkt.type = .read → res.res1 > 0 → pkt.res1.toNat + res.res1.toNat ≤ pkt.arg3.toNat)
  | _ => True

instance (s : State) : (e : Event) → Decidable (Safe s e)
  | .arrive .. | .dos .. | .response .. | .readerError | .writerReply | .poke .. => by unfold Safe; infer_instance

/-- The nodes of `fs_Reqs`. -/
def reqNodes (s : State) : List Node := reqList.nodes (s.queued.map .request)

/-- What is written to links of `fs_SentReqs` is not on `fs_Reqs`. -/
def Apart (s : State) : Event → Prop
  | .response res _ _ => res.req ∈ s.unanswered →
      s.links.pred (.request res.req) ∉ reqNodes s ∧ s.links.succ (.request res.req) ∉ reqNodes s
  | .writerReply => s.links.pred .sentTail ∉ reqNodes s
  | _ => True

instance (s : State) : (e : Event) → Decidable (Apart s e)
  | .arrive .. | .dos .. | .response .. | .readerError | .writerReply | .poke .. => by unfold Apart; infer_instance

/-- DOS does not send a packet that there are requests for. -/
def Unused (s : State) : Event → Prop
  | .arrive _ p _ => ∀ r ∈ s.queued ++ s.unanswered, (s.reqs r).pkt ≠ p
  | _ => True

instance (s : State) : (e : Event) → Decidable (Unused s e)
  | .arrive .. | .dos .. | .response .. | .readerError | .writerReply | .poke .. => by unfold Unused; infer_instance

/-- What keeps the requests in order, and their links. -/
def Steady (s : State) (e : Event) : Prop := Legal s e ∧ Safe s e ∧ Apart s e ∧ Unused s e

instance (s : State) (e : Event) : Decidable (Steady s e) := by unfold Steady; infer_instance

/-! ## The steps of the client that change no request -/

theorem mountVolume_eq (s : State) (v : Addr) (m : State.Mounting) :
    ∃ vols, (s.mountVolume v m).2 = { s with vols := vols } := by
  unfold State.mountVolume
  dsimp only
  split <;> exact ⟨_, rfl⟩

theorem createVolume_eq (s : State) (id : UInt16) (m : State.Mounting) :
    ∃ vols, (s.createVolume id m).2 = { s with vols := vols } := by
  unfold State.createVolume
  cases m.mem with
  | none => exact ⟨s.vols, rfl⟩
  | some v =>
    dsimp only
    split
    · obtain ⟨vols, hv⟩ := mountVolume_eq (s.setVol v { s.vols v with id := id }) v m
      split
      · next he => exact ⟨vols, by rw [he] at hv; exact hv⟩
      · next he => exact ⟨vols, by rw [he] at hv; exact hv⟩
    · exact ⟨_, rfl⟩

/-- Mounting is about volumes only. -/
theorem handleMountVolume_eq (s : State) (id : UInt16) (m : State.Mounting) :
    ∃ vols volList, s.handleMountVolume id m = { s with vols := vols, volList := volList } := by
  unfold State.handleMountVolume
  split
  · obtain ⟨vols, hv⟩ := mountVolume_eq s _ m
    exact ⟨vols, s.volList, hv⟩
  · obtain ⟨vols, hv⟩ := createVolume_eq s id m
    split
    · next he => exact ⟨vols, s.volList, by rw [he] at hv; exact hv⟩
    · next he =>
      rw [he] at hv
      dsimp only at hv
      subst hv
      exact ⟨vols, _, rfl⟩

theorem handleUnmountVolume_eq (s : State) (id : UInt16) : ∃ vols, s.handleUnmountVolume id = { s with vols := vols } := by
  unfold State.handleUnmountVolume State.unmountVolume
  split
  · split <;> exact ⟨_, rfl⟩
  · exact ⟨s.vols, rfl⟩

/-! ## Safe steps are defined -/

theorem HasMemory.cons {k : Nat} (h : HasMemory (k + 1) mems) : ∃ r mems', mems = some r :: mems' ∧ HasMemory k mems' := by
  unfold HasMemory at h
  match mems, h with
  | some r :: mems', h => exact ⟨r, mems', rfl, Nat.le_of_succ_le_succ h⟩

/-- A request is made if there is memory and it can be filled in. -/
theorem request_defined {length : UInt16} {fill : FsRequest → Option FsRequest} (hc : Core s) (hf : FreshReqs s mems)
    (hm : HasMemory 1 mems) (hfill : Fills length fill) (hd : ∀ r, (fill (newRequest s v p r t length)).isSome) :
    ∃ s', s.request v p t length mems.head?.join fill = some s' := by
  obtain ⟨r, mems', rfl, -⟩ := hm.cons
  obtain ⟨req, hreq⟩ := Option.isSome_iff_exists.1 (hd r)
  have hr : r ∉ s.queued := fun hm => hc.fresh hf (by
    rw [List.reduceOption_cons_of_some]
    exact List.mem_cons_self) (List.mem_append_left _ hm)
  obtain ⟨s', hs, -⟩ := (hc.queues.allocating r req).enqueueRequest hr
  exact ⟨s', (request_eq hreq (hfill _ _ hreq).ot).trans hs⟩

/-- What is appended fits if it is short. -/
theorem appendArg_isSome {req : FsRequest} {arg length : UInt16} (data : List UInt8)
    (h : req.length.toNat + length.toNat ≤ req.room) : (req.appendArg arg length data).isSome := by
  unfold FsRequest.appendArg
  rw [if_neg (Nat.not_lt.2 h)]
  rfl

theorem room_newRequest {length : UInt16} (h : length.toNat ≤ maxWriteLen) : ∀ r,
    length.toNat ≤ (newRequest s v p r t length).room := by
  intro r
  unfold FsRequest.room newRequest State.requestType
  dsimp only
  by_cases hl : length > 0
  · rw [if_pos hl, if_pos rfl]
    exact h
  · rw [if_neg hl]
    have : length.toNat = 0 := by
      rw [gt_iff_lt, UInt16.lt_iff_toNat_lt] at hl
      exact Nat.eq_zero_of_not_pos hl
    rw [this]
    exact Nat.zero_le _

theorem append_newRequest {arg length : UInt16} (data : List UInt8) (h : length.toNat ≤ maxWriteLen) (r : Addr)
    {f : FsRequest → FsRequest} (hf : SameButArgs f) :
    ((f (newRequest s v p r t length)).appendArg arg length data).isSome := by
  obtain ⟨-, -, -, ho, hl⟩ := hf (newRequest s v p r t length)
  apply appendArg_isSome
  unfold FsRequest.room
  rw [ho, hl]
  exact (Nat.zero_add _).symm ▸ room_newRequest h r

/-- Two names fit, one after the other. -/
theorem append_twice {arg arg' len len' : UInt16} (data data' : List UInt8) (h : len.toNat ≤ 128) (h' : len'.toNat ≤ 128)
    (r : Addr) {f g : FsRequest → FsRequest} (hf : SameButArgs f) (hg : SameButArgs g) :
    (((f (newRequest s v p r t (len + len'))).appendArg arg len data).bind fun req =>
      (g req).appendArg arg' len' data').isSome := by
  have hsum : (len + len').toNat = len.toNat + len'.toNat := by
    rw [UInt16.toNat_add]
    exact Nat.mod_eq_of_lt (by omega)
  have hroom : len.toNat + len'.toNat ≤ (newRequest s v p r t (len + len')).room := by
    rw [← hsum]
    exact room_newRequest (le_trans (by omega) (show 256 ≤ maxWriteLen by decide)) r
  obtain ⟨-, -, -, ho, hl⟩ := hf (newRequest s v p r t (len + len'))
  have hroom' : (f (newRequest s v p r t (len + len'))).room = (newRequest s v p r t (len + len')).room := by
    unfold FsRequest.room
    rw [ho]
  have hzero : (f (newRequest s v p r t (len + len'))).length = 0 := hl
  have hfst : ((f (newRequest s v p r t (len + len'))).appendArg arg len data).isSome := by
    apply appendArg_isSome
    rw [hroom', hzero]
    exact le_trans (by rw [show (0 : UInt16).toNat = 0 from rfl]; omega) hroom
  obtain ⟨req, hreq⟩ := Option.isSome_iff_exists.1 hfst
  rw [hreq, Option.bind_some]
  have hk := FsRequest.appendArg_keeps hreq
  obtain ⟨-, -, -, hgo, hgl⟩ := hg req
  apply appendArg_isSome
  have hgroom : (g req).room = (newRequest s v p r t (len + len')).room := by
    unfold FsRequest.room
    rw [hgo, hk.ot, ho]
  rw [hgroom, hgl, hk.length, hzero, UInt16.zero_add]
  exact hroom

theorem NameFits.le {a : UInt32} (h : NameFits s a) : (s.bstrLen a).toNat ≤ maxWriteLen := le_trans h (by decide)

theorem writeChunk_defined {data : Addr} {n : Nat} (hc : Core s) (hf : FreshReqs s mems) (hm : HasMemory 1 mems) :
    ∃ s', s.writeChunk v p data n mems.head?.join = some s' := by
  unfold State.writeChunk
  dsimp only
  have hlen : (UInt16.ofNat (min n maxWriteLen)).toNat ≤ maxWriteLen := by
    rw [toNat_ofNat_chunk (Nat.min_le_right ..)]
    exact Nat.min_le_right ..
  refine request_defined hc hf hm ?_ fun r => ?_
  · refine fills_append ?_ ?_ _ _ _ <;> exact fun _ => ⟨rfl, rfl, rfl, rfl, rfl⟩
  · rw [Option.isSome_map]
    exact append_newRequest (f := fun req => { req with arg1 := (s.pkts p).arg1, arg3 := (s.pkts p).arg3 }) _ hlen r
      fun _ => ⟨rfl, rfl, rfl, rfl, rfl⟩

theorem writeChunks_defined : ∀ {mems : List (Option Addr)} {s : State} {data : Addr} {n : Nat}, Core s →
    FreshReqs s mems → HasMemory ((n + (maxWriteLen - 1)) / maxWriteLen) mems →
    ∃ s', State.writeChunks v p mems s data n = some s'
  | [], s, _, 0, _, _, _ => ⟨s, rfl⟩
  | _ :: _, s, _, 0, _, _, _ => ⟨s, rfl⟩
  | [], _, _, n + 1, _, _, hm => by
    have hk : (n + 1 + (maxWriteLen - 1)) / maxWriteLen = (n + 1 - min (n + 1) maxWriteLen + (maxWriteLen - 1)) /
        maxWriteLen + 1 := by unfold maxWriteLen; omega
    rw [hk] at hm
    obtain ⟨r, mems', he, -⟩ := hm.cons
    cases he
  | mem :: mems, s, data, n + 1, hc, hf, hm => by
    have hk : (n + 1 + (maxWriteLen - 1)) / maxWriteLen = (n + 1 - min (n + 1) maxWriteLen + (maxWriteLen - 1)) /
        maxWriteLen + 1 := by unfold maxWriteLen; omega
    rw [hk] at hm
    have hone : HasMemory 1 (mem :: mems) := le_trans (Nat.le_add_left 1 _) hm
    obtain ⟨s₁, h₁⟩ : ∃ s₁, s.writeChunk v p data (n + 1) (mem :: mems).head?.join = some s₁ :=
      writeChunk_defined hc hf hone
    obtain ⟨r, mems', he, ha, -⟩ := writeChunk_asks hc hf h₁
    cases he
    have hc₁ := hc.asks ha hf (by
      rw [List.reduceOption_cons_of_some]
      exact (List.nil_sublist _).cons_cons r)
    obtain ⟨s', h'⟩ := writeChunks_defined hc₁ (hf.tail ha) (Nat.le_of_succ_le_succ hm)
    exact ⟨s', Option.bind_eq_some_iff.2 ⟨s₁, h₁, h'⟩⟩

theorem request_args_defined {f : FsRequest → FsRequest} (hc : Core s) (hf : FreshReqs s mems)
    (hm : HasMemory 1 mems) (ha : SameButArgs f) :
    ∃ s', s.request v p t 0 mems.head?.join (fun req => some (f req)) = some s' :=
  request_defined hc hf hm (fills_args ha) fun _ => rfl

/-- A request with one name. -/
theorem request_name_defined {arg : UInt16} {a : UInt32} {f g : FsRequest → FsRequest} (hc : Core s)
    (hf : FreshReqs s mems) (hm : HasMemory 1 mems) (hn : NameFits s a) (hs : SameButArgs f) (hg : SameButArgs g) :
    ∃ s', s.request v p t (s.bstrLen a) mems.head?.join
      (fun req => ((f req).appendArg arg (s.bstrLen a) (s.bstr a)).map g) = some s' := by
  refine request_defined hc hf hm (fills_append hs hg _ _ _) fun r => ?_
  rw [Option.isSome_map]
  exact append_newRequest _ hn.le r hs

theorem actionFreeLock_defined (hc : Core s) (hf : FreshReqs s mems)
    (hm : HasMemory (if s.lockKey (s.pkts p).arg1 = 0 then 0 else 1) mems) :
    ∃ s', s.actionFreeLock v p mems.head?.join = some s' := by
  unfold State.actionFreeLock
  dsimp only
  split
  case isTrue => exact ⟨_, rfl⟩
  case isFalse hk =>
    rw [if_neg hk] at hm
    refine request_args_defined hc hf hm ?_
    exact fun _ => ⟨rfl, rfl, rfl, rfl, rfl⟩

theorem handlePacket_mounted_defined (hc : Core s) (hf : FreshReqs s mems) (hm : (s.vols v).mounted = true)
    (hmem : HasMemory (needed s v p) mems) (hn : ∀ a ∈ names (s.pkts p), NameFits s a) :
    ∃ s', s.handlePacket v p mems lock = some s' := by
  unfold needed at hmem
  unfold names at hn
  unfold State.handlePacket
  rw [if_pos hm] at hmem
  rw [if_pos hm]
  cases ht : (s.pkts p).type with
  | freeLock =>
    rw [ht] at hmem
    exact actionFreeLock_defined hc hf hmem
  | copyDir | isFilesystem | setProtect | setComment | setDate | currentVolume | other => exact ⟨_, rfl⟩
  | sameLock =>
    rw [ht] at hmem
    dsimp only [State.actionSameLock] at hmem ⊢
    split
    · exact ⟨_, rfl⟩
    · next hk =>
      rw [if_neg hk] at hmem
      refine request_args_defined hc hf hmem ?_
      exact fun _ => ⟨rfl, rfl, rfl, rfl, rfl⟩
  | examineObject =>
    rw [ht] at hmem
    dsimp only [State.actionExamine] at hmem ⊢
    split
    · exact ⟨_, rfl⟩
    · next hk =>
      rw [if_neg hk] at hmem
      refine request_args_defined hc hf hmem ?_
      exact fun _ => ⟨rfl, rfl, rfl, rfl, rfl⟩
  | diskInfo | info =>
    rw [ht] at hmem
    dsimp only [State.actionInfo]
    rw [if_pos hm]
    exact request_args_defined (f := id) hc hf hmem fun _ => ⟨rfl, rfl, rfl, rfl, rfl⟩
  | examineNext =>
    rw [ht] at hmem
    dsimp only [State.actionExamineNext]
    have hq : ∀ u : State, u.books = s.books → u.pkts = s.pkts → Core u ∧ FreshReqs u mems := fun u hb hp =>
      ⟨(Quiet.of_pkts hb hp : Quiet p s u).core hc, (Quiet.of_pkts hb hp : Quiet p s u).freshReqs hf⟩
    split
    · obtain ⟨hc', hf'⟩ := hq { s with mem := setLong s.mem (baddr (s.pkts p).arg2) 0 } rfl rfl
      refine request_args_defined hc' hf' hmem ?_
      exact fun _ => ⟨rfl, rfl, rfl, rfl, rfl⟩
    · refine request_args_defined hc hf hmem ?_
      exact fun _ => ⟨rfl, rfl, rfl, rfl, rfl⟩
  | examineFh | seek | fhFromLock =>
    rw [ht] at hmem
    dsimp only [State.actionExamineFh, State.actionSeek, State.actionFhFromLock]
    refine request_args_defined hc hf hmem ?_
    exact fun _ => ⟨rfl, rfl, rfl, rfl, rfl⟩
  | parent | parentFh =>
    rw [ht] at hmem
    dsimp only [State.actionParent, State.actionParentFh, State.parentRequest]
    have hq : Quiet p s (s.setPkt p { s.pkts p with arg3 := sharedLock }) := quiet_setPkt s rfl rfl rfl
    refine request_args_defined (hq.core hc) (hq.freshReqs hf) hmem ?_
    exact fun _ => ⟨rfl, rfl, rfl, rfl, rfl⟩
  | read =>
    rw [ht] at hmem
    dsimp only [State.actionRead]
    have hq : Quiet p s (s.setRes1 p 0) := quiet_setRes1 s _
    refine request_args_defined (hq.core hc) (hq.freshReqs hf) hmem ?_
    exact fun _ => ⟨rfl, rfl, rfl, rfl, rfl⟩
  | write =>
    rw [ht] at hmem
    have hq : Quiet p s (s.setRes1 p 0) := quiet_setRes1 s _
    exact writeChunks_defined (hq.core hc) (hq.freshReqs hf) hmem
  | locateObject | findInput | findOutput | findUpdate | flush =>
    rw [ht] at hmem hn
    refine request_name_defined (f := id) hc hf hmem (hn _ List.mem_cons_self) ?_ ?_
    all_goals exact fun _ => ⟨rfl, rfl, rfl, rfl, rfl⟩
  | createDir | deleteObject =>
    rw [ht] at hmem hn
    dsimp only [State.actionCreateDir, State.actionDeleteObject, State.nameRequest]
    refine request_defined hc hf hmem ?_ fun r => ?_
    · refine fills_append_last ?_ _ _ _
      exact fun _ => ⟨rfl, rfl, rfl, rfl, rfl⟩
    · exact append_newRequest (f := fun req => { req with arg1 := s.lockKey (s.pkts p).arg1 }) _
        (hn _ List.mem_cons_self).le r fun _ => ⟨rfl, rfl, rfl, rfl, rfl⟩
  | renameObject =>
    rw [ht] at hmem hn
    dsimp only [State.actionRenameObject]
    refine request_defined hc hf hmem ?_ fun r => ?_
    · refine fills_append_twice ?_ ?_ _ _ _ _ _ _ <;> exact fun _ => ⟨rfl, rfl, rfl, rfl, rfl⟩
    · exact append_twice (f := fun req => { req with arg1 := s.lockKey (s.pkts p).arg1 })
        (g := fun req => { req with arg3 := s.lockKey (s.pkts p).arg3 }) _ _ (hn _ List.mem_cons_self)
        (hn _ (List.mem_cons_of_mem _ List.mem_cons_self)) r (fun _ => ⟨rfl, rfl, rfl, rfl, rfl⟩)
        fun _ => ⟨rfl, rfl, rfl, rfl, rfl⟩
  | «end» =>
    rw [ht] at hmem
    obtain ⟨s', h⟩ : ∃ s', s.actionEnd v p mems.head?.join = some s' := by
      refine request_args_defined hc hf hmem ?_
      exact fun _ => ⟨rfl, rfl, rfl, rfl, rfl⟩
    exact ⟨_, congrArg (Option.map _) h⟩

theorem handlePacket_defined (hc : Core s) (hf : FreshReqs s mems) (hmem : HasMemory (needed s v p) mems)
    (hn : (s.vols v).mounted = true → ∀ a ∈ names (s.pkts p), NameFits s a) :
    ∃ s', s.handlePacket v p mems lock = some s' := by
  by_cases hm : (s.vols v).mounted = true
  · exact handlePacket_mounted_defined hc hf hm hmem (hn hm)
  · unfold needed at hmem
    unfold State.handlePacket
    rw [if_neg hm] at hmem
    rw [if_neg hm]
    cases ht : (s.pkts p).type with
    | freeLock =>
      rw [ht] at hmem
      exact actionFreeLock_defined hc hf hmem
    | diskInfo =>
      dsimp only [State.actionInfo]
      rw [if_neg hm]
      exact ⟨_, rfl⟩
    | _ => exact ⟨_, rfl⟩

/-- The address of an object that is aligned comes back from a packet. -/
theorem baddr_mkbaddr {l : Addr} (h : l.toNat % 4 = 0) : baddr (mkbaddr l) = l := by
  have := l.toNat_lt
  apply UInt32.toNat_inj.1
  unfold baddr mkbaddr
  rw [UInt32.toNat_shiftLeft, UInt32.toNat_shiftRight]
  change l.toNat >>> 2 <<< 2 % 2 ^ 32 = l.toNat
  rw [Nat.shiftRight_eq_div_pow, Nat.shiftLeft_eq]
  omega

theorem createDirReply_defined (hl : ∀ l ∈ lock, l ≠ 0 ∧ l.toNat % 4 = 0)
    (h : res.res1 ≠ dosFalse → lock.isSome = true) : ∃ s', s.actionCreateDirReply v res p lock = some s' := by
  unfold State.actionCreateDirReply
  by_cases hz : res.res1 = dosFalse
  · exact ⟨_, if_neg (not_not.2 hz)⟩
  · obtain ⟨l, rfl⟩ := Option.isSome_iff_exists.1 (h hz)
    obtain ⟨hne, hal⟩ := hl l rfl
    have hres : ((s.actionLocateObjectReply v res p (some l)).pkts p).res1 = mkbaddr l := by
      unfold State.actionLocateObjectReply
      rw [if_neg hz]
      dsimp only [State.allocLock, State.setRes, State.setPkt]
      rw [Function.update_self]
    dsimp only
    rw [if_pos hz, hres, baddr_mkbaddr hal, if_neg hne]
    exact ⟨_, rfl⟩

theorem receiveRemoteMessage_defined (hl : ∀ l ∈ lock, l ≠ 0 ∧ l.toNat % 4 = 0) (hp : (s.reqs res.req).pkt = p)
    (hcd : (s.pkts p).type = .createDir → res.res1 ≠ dosFalse → lock.isSome = true)
    (hrd : (s.pkts p).type = .read → res.res1 > 0 → (s.pkts p).res1.toNat + res.res1.toNat ≤ (s.pkts p).arg3.toNat) :
    ∃ s', s.receiveRemoteMessage v res lock = some s' := by
  subst hp
  unfold State.receiveRemoteMessage
  dsimp only
  cases ht : (s.pkts (s.reqs res.req).pkt).type with
  | createDir =>
    obtain ⟨s', hs⟩ := createDirReply_defined (s := s) (v := v) (p := (s.reqs res.req).pkt) hl (hcd ht)
    exact ⟨_, congrArg (Option.map _) hs⟩
  | read =>
    dsimp only [State.actionReadReply]
    by_cases h1 : res.res1 > 0
    · rw [if_pos h1, if_neg (Nat.not_lt.2 (hrd ht h1))]
      exact ⟨_, rfl⟩
    · rw [if_neg h1]
      exact ⟨_, rfl⟩
  | _ => exact ⟨_, rfl⟩

/-! ## Steps keep the order of the requests -/

/-- A reply frees only what is neither queued nor sent. -/
theorem Core.reply (hc : Core s) {r : Option Addr} (hr : ∀ a ∈ r, a ∉ s.queued ++ s.unanswered) :
    Core (s.replyToDosPacket v r p) := by
  rw [replyToDosPacket_eq]
  refine ⟨⟨hc.queues.reqs, hc.queues.ready, hc.queues.apart⟩, hc.placed, fun a ha => ?_, ?_, hc.valid⟩
  · obtain ⟨x, hx, rfl⟩ := List.mem_map.1 (hc.held a ha)
    refine List.mem_map.2 ⟨x, ?_, rfl⟩
    dsimp only
    refine List.mem_diff_of_mem hx fun hm => ?_
    unfold State.released at hm
    cases r with
    | none => exact List.not_mem_nil hm
    | some r =>
      dsimp only at hm
      split at hm
      · exact List.not_mem_nil hm
      · rw [List.mem_singleton.1 hm] at ha
        exact hr r rfl ha
  · exact hc.live_nodup.sublist ((List.diff_sublist _ _).map _)

/-- What `Remove` leaves behind. -/
def State.unlinked (s : State) (res : FsResponse) : State :=
  { s with
    links := s.links.remove (.request res.req)
    unanswered := if s.more res then s.unanswered else s.unanswered.erase res.req }

theorem unlinked_sublist (s : State) (res : FsResponse) : (s.unlinked res).unanswered.Sublist s.unanswered := by
  unfold State.unlinked
  dsimp only
  split
  · exact .refl _
  · exact List.erase_sublist

theorem Core.unlinked (hc : Core s) (hp : s.links.pred (.request res.req) ∉ reqNodes s)
    (hs : s.links.succ (.request res.req) ∉ reqNodes s) : Core (s.unlinked res) := by
  have hsub : ((s.unlinked res).queued ++ (s.unlinked res).unanswered).Sublist (s.queued ++ s.unanswered) :=
    (unlinked_sublist s res).append_left _
  refine ⟨⟨hc.queues.reqs.remove_other hp hs, hc.queues.ready, ?_⟩, hc.placed.sublist hsub,
    fun a ha => hc.held a (hsub.subset ha), hc.live_nodup, fun a ha => hc.valid a (hsub.subset ha)⟩
  change (s.links.join _ _).pred .sentTail ∉ _
  by_cases he : Node.sentTail = s.links.succ (.request res.req)
  · rw [← he, Links.join_pred_self]
    intro hm
    apply hp
    unfold reqNodes
    rw [Header.mem_nodes] at hm ⊢
    exact hm.imp_right fun h => .inr (h.resolve_left List.not_mem_nil)
  · rw [Links.join_pred_of_ne he]
    exact hc.queues.apart

/-- A response after which more are to come leaves the requests as they are. -/
theorem unlinked_more (hm : s.more res = true) : (s.unlinked res).unanswered = s.unanswered := if_pos hm

/-- The last response takes the request off. -/
theorem unlinked_perm (hu : res.req ∈ s.unanswered) (hm : s.more res = false) :
    (s.queued ++ s.unanswered).Perm (res.req :: ((s.unlinked res).queued ++ (s.unlinked res).unanswered)) := by
  have he : (s.unlinked res).unanswered = s.unanswered.erase res.req := if_neg (by rw [hm]; exact Bool.false_ne_true)
  rw [he]
  exact ((List.perm_cons_erase hu).append_left s.queued).trans List.perm_middle

theorem unlinked_notMem (hc : Core s) (hu : res.req ∈ s.unanswered) (hm : s.more res = false) :
    res.req ∉ (s.unlinked res).queued ++ (s.unlinked res).unanswered :=
  (List.nodup_cons.1 ((unlinked_perm hu hm).nodup_iff.1 hc.placed)).1

theorem receiveResponse_cases {m : State.Mounting} (h : s.receiveResponse res lock m = some s') :
    res.req = mountVolumeKey ∧ s' = s.handleMountVolume (res.res1 >>> 16).toUInt16 m ∨
      res.req = unmountVolumeKey ∧ s' = s.handleUnmountVolume (res.res1 >>> 16).toUInt16 ∨
      (res.req ≠ mountVolumeKey ∧ res.req ≠ unmountVolumeKey) ∧
        (s.unlinked res).receiveRemoteMessage (s.reqs res.req).volume res lock = some s' := by
  unfold State.receiveResponse at h
  dsimp only at h
  split at h
  case isTrue hk => exact .inl ⟨hk, (Option.some.inj h).symm⟩
  case isFalse hk =>
    split at h
    case isTrue hk' => exact .inr (.inl ⟨hk', (Option.some.inj h).symm⟩)
    case isFalse hk' => exact .inr (.inr ⟨⟨hk, hk'⟩, h⟩)

/-- **What becomes of a response**: it mounts or unmounts a volume, or goes to a packet. -/
theorem response_outcome {m : State.Mounting} (hl : LegalResponse s res)
    (h : s.receiveResponse res lock m = some s') :
    (∃ vols volList, s' = { s with vols := vols, volList := volList }) ∨
      res.req ∈ s.unanswered ∧ Answered (s.reqs res.req).volume res (s.reqs res.req).pkt lock (s.unlinked res) s' := by
  obtain ⟨-, rfl⟩ | ⟨-, rfl⟩ | ⟨⟨hk, hk'⟩, h⟩ := receiveResponse_cases h
  · exact .inl (handleMountVolume_eq s _ m)
  · obtain ⟨vols, hv⟩ := handleUnmountVolume_eq s (res.res1 >>> 16).toUInt16
    exact .inl ⟨vols, s.volList, hv⟩
  · exact .inr ⟨(hl.resolve_left hk).resolve_left hk', receiveRemoteMessage_outcome rfl h⟩

/-- **What becomes of a message of DOS.** -/
theorem dos_outcome (hc : Core s) (hf : FreshReqs s mems) (h : s.receiveDosMessage v mems lock = some s') :
    ∃ m, (s.msgs.find? fun m => m.1 = v) = some m ∧
      Outcome v m.2 mems lock { s with msgs := s.msgs.erase m } s' := by
  unfold State.receiveDosMessage at h
  split at h
  case h_1 => cases h
  case h_2 m hm =>
    refine ⟨m, hm, handlePacket_outcome ?_ hf h⟩
    exact hc.congr rfl rfl rfl rfl rfl

theorem Outcome.core (h : Outcome v p mems lock s s') (hc : Core s) (hf : FreshReqs s mems) : Core s' := by
  cases h with
  | replied s₁ hq _ _ he =>
    rw [he]
    exact (hq.core hc).reply fun a ha => (Option.not_mem_none _ ha).elim
  | asked s₁ r hq _ hsub ha _ => exact (hq.core hc).asks ha (hq.freshReqs hf) hsub
  | wrote s₁ new hq _ hsub ha _ _ _ => exact (hq.core hc).asks ha (hq.freshReqs hf) hsub
  | ended s₁ r hsub ha _ _ he =>
    rw [he]
    exact (hc.asks ha hf hsub).reply fun a ha => (Option.not_mem_none _ ha).elim

/-- A response after which more are to come goes to a packet that waits for them. -/
def Expected (s : State) : Event → Prop
  | .response res _ _ => res.req ∈ s.unanswered → s.more res = true → (s.pkts (s.reqs res.req).pkt).type = .read
  | _ => True

theorem Answered.core (h : Answered v res p lock s s') (hc : Core s)
    (hr : (s.pkts p).type = .read ∧ res.res2 = 0 ∨ res.req ∉ s.queued ++ s.unanswered) : Core s' := by
  cases h with
  | awaited hq _ _ _ => exact hq.core hc
  | replied s₁ hq _ hz he =>
    rw [he]
    apply (hq.core hc).reply
    intro a ha
    cases ha
    rw [hq.queued, hq.unanswered]
    exact hr.resolve_left fun hx => hz (.inl hx.1) hx.2

/-- The writer comes back, and the next request is sent. -/
theorem writerReply_eq (hc : Core s) (h : { s with writeReady := true }.sendReq = some s') :
    s.queued = [] ∧ s' = { s with writeReady := true } ∨
      ∃ r l, s.queued = r :: l ∧ s' = { s with writeReady := true }.sending r := by
  have hl : Linked .null { s with writeReady := true }.links reqList (s.queued.map .request) := hc.queues.reqs
  by_cases hq : s.queued = []
  · rw [sendReq_nil hl hq] at h
    exact .inl ⟨hq, (Option.some.inj h).symm⟩
  · obtain ⟨r, l, hq⟩ := List.exists_cons_of_ne_nil hq
    rw [sendReq_cons hl hq] at h
    exact .inr ⟨r, l, hq, (Option.some.inj h).symm⟩

theorem sending_perm {l : List Addr} (hq : s.queued = r :: l) :
    ((s.sending r).queued ++ (s.sending r).unanswered).Perm (s.queued ++ s.unanswered) := by
  change (s.queued.erase r ++ (s.unanswered ++ [r])).Perm _
  rw [hq, List.erase_cons_head, ← List.append_assoc]
  exact List.perm_append_singleton r _

theorem Core.sending {l : List Addr} (hc : Core s) (hq : s.queued = r :: l)
    (hp : s.links.pred .sentTail ∉ reqList.nodes (l.map .request)) : Core (s.sending r) := by
  have hperm := sending_perm hq
  refine ⟨Queues.sending hc.queues.reqs hq hp, ?_, fun a ha => hc.held a (hperm.mem_iff.1 ha), hc.live_nodup,
    fun a ha => hc.valid a (hperm.mem_iff.1 ha)⟩
  unfold Placed
  rw [hperm.nodup_iff]
  exact hc.placed

/-- **One step keeps the order of the requests.** -/
theorem Core.step (hc : Core s) (hl : Legal s e) (ha : Apart s e) (hx : Expected s e) (h : step s e = some s') :
    Core s' := by
  cases e with
  | arrive v p pkt =>
    cases h
    exact hc.congr rfl rfl rfl rfl rfl
  | dos v mems lock =>
    obtain ⟨m, -, ho⟩ := dos_outcome hc hl.2.1 h
    exact ho.core (hc.congr rfl rfl rfl rfl rfl) hl.2.1
  | response res lock m =>
    obtain ⟨vols, volList, rfl⟩ | ⟨hu, ho⟩ := response_outcome hl.2.2.1 h
    · exact hc.congr rfl rfl rfl rfl rfl
    · refine ho.core (hc.unlinked (ha hu).1 (ha hu).2) ?_
      cases hm : s.more res with
      | true =>
        unfold State.more at hm
        rw [decide_eq_true_eq] at hm
        exact .inl ⟨hx hu (decide_eq_true hm), hm.2⟩
      | false => exact .inr (unlinked_notMem hc hu hm)
  | readerError =>
    cases h
    exact hc.congr rfl rfl rfl rfl rfl
  | writerReply =>
    obtain ⟨hq, rfl⟩ | ⟨r, l, hq, rfl⟩ := writerReply_eq hc h
    · exact ⟨⟨hc.queues.reqs, fun _ => hq, hc.queues.apart⟩, hc.placed, hc.held, hc.live_nodup, hc.valid⟩
    · have hc' : Core { s with writeReady := false } :=
        ⟨⟨hc.queues.reqs, (fun hw => by cases hw), hc.queues.apart⟩, hc.placed, hc.held, hc.live_nodup, hc.valid⟩
      refine Core.congr (hc'.sending hq ?_) rfl rfl rfl rfl rfl
      intro hm
      apply ha
      unfold reqNodes
      rw [Header.mem_nodes] at hm ⊢
      rw [hq, List.map_cons, List.mem_cons]
      exact hm.imp_right (Or.imp_left .inr)
  | poke mem locks =>
    cases h
    exact hc.congr rfl rfl rfl rfl rfl

/-- **Safe steps are defined.** -/
theorem step_defined (hc : Core s) (hl : Legal s e) (hs : Safe s e) : ∃ s', step s e = some s' := by
  cases e with
  | dos v mems lock =>
    obtain ⟨⟨m, hm, hv⟩, hf, -⟩ := hl
    have hfind : (s.msgs.find? fun m => m.1 = v).isSome := List.find?_isSome.2 ⟨m, hm, decide_eq_true hv⟩
    obtain ⟨m, hfind⟩ := Option.isSome_iff_exists.1 hfind
    obtain ⟨hmem, hn⟩ := hs m hfind
    have hc' : Core { s with msgs := s.msgs.erase m } := hc.congr rfl rfl rfl rfl rfl
    obtain ⟨s', h⟩ := handlePacket_defined (v := v) (p := m.2) (s := { s with msgs := s.msgs.erase m }) hc' hf hmem hn
    refine ⟨s', ?_⟩
    change s.receiveDosMessage v mems lock = some s'
    unfold State.receiveDosMessage
    rw [hfind]
    exact h
  | response res lock m =>
    obtain ⟨-, hlock, hres, -⟩ := hl
    change ∃ s', s.receiveResponse res lock m = some s'
    unfold State.receiveResponse
    dsimp only
    split
    case isTrue => exact ⟨_, rfl⟩
    case isFalse hk =>
      split
      case isTrue => exact ⟨_, rfl⟩
      case isFalse hk' =>
        have hu := (hres.resolve_left hk).resolve_left hk'
        obtain ⟨hcd, hrd⟩ := hs hu
        exact receiveRemoteMessage_defined (fun l hm => ⟨(hlock l hm).1, (hlock l hm).2.1⟩) rfl hcd hrd
  | writerReply =>
    have hq : Linked .null { s with writeReady := true }.links reqList (s.queued.map .request) := hc.queues.reqs
    by_cases hz : s.queued = []
    · exact ⟨_, sendReq_nil hq hz⟩
    · obtain ⟨r, l, hz⟩ := List.exists_cons_of_ne_nil hz
      exact ⟨_, sendReq_cons hq hz⟩
  | arrive | readerError | poke => exact ⟨_, rfl⟩

/-! ## Requests fit their packets -/

/-- A request that is queued or sent is of the type that its packet asks for. -/
def Fit (s : State) : Prop :=
  ∀ r ∈ s.queued ++ s.unanswered, (s.reqs r).type = (s.pkts (s.reqs r).pkt).type.sentAs

theorem sentAs_eq_read : t.sentAs = .read ↔ t = .read := by
  unfold Action.sentAs
  split <;> simp_all

theorem sentAs_eq_write : t.sentAs = .write ↔ t = .write := by
  unfold Action.sentAs
  split <;> simp_all

theorem Fit.expected (h : Fit s) : Expected s e := by
  cases e with
  | response res lock m =>
    intro hu hm
    unfold State.more at hm
    rw [decide_eq_true_eq, h _ (List.mem_append_right _ hu)] at hm
    exact sentAs_eq_read.1 hm.1
  | _ => exact trivial

/-- Packets keep their types. -/
def SameTypes (s s' : State) : Prop := ∀ q, (s'.pkts q).type = (s.pkts q).type

theorem Quiet.sameTypes (h : Quiet p s s') : SameTypes s s' := fun q => by
  by_cases hq : q = p
  · rw [hq]
    exact h.type
  · rw [h.others q hq]

theorem sameTypes_reply (s : State) (v : Addr) (r : Option Addr) (p : Addr) :
    SameTypes s (s.replyToDosPacket v r p) := by
  intro q
  rw [replyToDosPacket_eq]
  dsimp only
  by_cases hq : q = p
  · rw [hq, Function.update_self]
  · rw [Function.update_of_ne hq]

theorem Fit.congr (h : Fit s) (hr : s'.reqs = s.reqs) (hp : SameTypes s s')
    (hsub : ∀ a ∈ s'.queued ++ s'.unanswered, a ∈ s.queued ++ s.unanswered) : Fit s' := fun a ha => by
  rw [hr, h a (hsub a ha), hp]

theorem Fit.quiet (h : Fit s) (hq : Quiet p s s') : Fit s' := by
  refine h.congr hq.reqs hq.sameTypes fun a ha => ?_
  rwa [hq.queued, hq.unanswered] at ha

theorem Fit.reply (h : Fit s) (v : Addr) (r : Option Addr) (p : Addr) : Fit (s.replyToDosPacket v r p) := by
  refine h.congr ?_ (sameTypes_reply s v r p) fun a ha => ?_
  · rw [replyToDosPacket_eq]
  · rwa [replyToDosPacket_eq] at ha

/-- New requests fit their packet. -/
theorem Fit.asks {new : List Addr} (h : Fit s) (ha : Asks v p t new s s')
    (hnew : ∀ r ∈ new, r ∉ s.queued ++ s.unanswered) (ht : t = (s.pkts p).type.sentAs) : Fit s' := by
  intro r hr
  rw [ha.pkts]
  obtain hr | hr := List.mem_append.1 (ha.perm.mem_iff.1 hr)
  · rw [ha.reqs r fun hm => hnew r hm hr]
    exact h r hr
  · rw [(ha.filled r hr).type, (ha.filled r hr).pkt, ht]

theorem Outcome.fit (ho : Outcome v p mems lock s s') (hc : Core s) (hf : FreshReqs s mems) (h : Fit s) : Fit s' := by
  cases ho with
  | replied s₁ hq _ _ he =>
    rw [he]
    exact (h.quiet hq).reply _ _ _
  | asked s₁ r hq _ hsub ha _ =>
    refine (h.quiet hq).asks ha (fun a hm => (hq.core hc).fresh (hq.freshReqs hf) (hsub.subset hm)) ?_
    rw [hq.type]
  | wrote s₁ new hq _ hsub ha ht _ _ =>
    refine (h.quiet hq).asks ha (fun a hm => (hq.core hc).fresh (hq.freshReqs hf) (hsub.subset hm)) ?_
    rw [hq.type, ht]
    rfl
  | ended s₁ r hsub ha ht _ he =>
    rw [he]
    refine (h.asks ha (fun a hm => hc.fresh hf (hsub.subset hm)) ?_).reply _ _ _
    rw [ht]
    rfl

theorem Answered.fit (ho : Answered v res p lock s s') (h : Fit s) : Fit s' := by
  cases ho with
  | awaited hq _ _ _ => exact h.quiet hq
  | replied s₁ hq _ _ he =>
    rw [he]
    exact (h.quiet hq).reply _ _ _

/-- After the response at which a packet is replied to, no more are to come. -/
theorem Fit.last (h : Fit s) (hu : res.req ∈ s.unanswered) (hp : (s.reqs res.req).pkt = p)
    (hz : (s.pkts p).type = .read ∨ (s.pkts p).type = .write → res.res2 ≠ 0) : s.more res = false := by
  refine decide_eq_false fun hm => ?_
  have ht := h _ (List.mem_append_right _ hu)
  rw [hp] at ht
  exact hz (.inl (sentAs_eq_read.1 (ht.symm.trans hm.1))) hm.2

theorem Fit.step (h : Fit s) (hc : Core s) (hl : Legal s e) (hu : Unused s e) (hs : step s e = some s') : Fit s' := by
  cases e with
  | arrive v p pkt =>
    cases hs
    intro r hr
    have hne : (s.reqs r).pkt ≠ p := hu r hr
    change (s.reqs r).type = (Function.update s.pkts p pkt (s.reqs r).pkt).type.sentAs
    rw [Function.update_of_ne hne]
    exact h r hr
  | dos v mems lock =>
    obtain ⟨m, -, ho⟩ := dos_outcome hc hl.2.1 hs
    exact ho.fit (hc.congr rfl rfl rfl rfl rfl) hl.2.1 h
  | response res lock m =>
    obtain ⟨vols, volList, rfl⟩ | ⟨-, ho⟩ := response_outcome hl.2.2.1 hs
    · exact h
    · refine ho.fit (h.congr rfl (fun _ => rfl) fun a ha => ?_)
      exact ((unlinked_sublist s res).append_left _).subset ha
  | readerError =>
    cases hs
    exact h
  | writerReply =>
    obtain ⟨-, rfl⟩ | ⟨r, l, hq, rfl⟩ := writerReply_eq hc hs
    · exact h
    · exact h.congr rfl (fun _ => rfl) fun a ha => (sending_perm hq).mem_iff.1 ha
  | poke mem locks =>
    cases hs
    exact h

/-- **A steady step** is defined and keeps the requests in order. -/
theorem Steady.step (hst : Steady s e) (hc : Core s) (hfit : Fit s) : ∃ s', step s e = some s' ∧ Core s' ∧ Fit s' := by
  obtain ⟨hl, hsafe, hap, hun⟩ := hst
  obtain ⟨s', hs⟩ := step_defined hc hl hsafe
  exact ⟨s', hs, hc.step hl hap hfit.expected hs, hfit.step hc hl hun hs⟩

/-! ## The start -/

theorem core_start (mem : Addr → UInt8) (pkts : Addr → DosPacket) (reqs : Addr → FsRequest)
    (locks : Addr → FsFileLock) (vols : Addr → Volume) (links : Links Node) :
    Core (start mem pkts reqs locks vols links) where
  queues := by
    refine ⟨?_, fun _ => rfl, ?_⟩
    · refine (Linked.newList links ?_ ?_ ?_).newList_other ?_ ?_ <;> simp [reqList, sentReqList]
    · change ((links.newList .null reqList).join .sentHead .sentTail).pred .sentTail ∉ _
      rw [Links.join_pred_self]
      simp [reqList]
  placed := List.nodup_nil
  held _ h := (List.not_mem_nil h).elim
  live_nodup := List.nodup_nil
  valid _ h := (List.not_mem_nil h).elim

theorem sent_start (mem : Addr → UInt8) (pkts : Addr → DosPacket) (reqs : Addr → FsRequest)
    (locks : Addr → FsFileLock) (vols : Addr → Volume) (links : Links Node) :
    Sent (start mem pkts reqs locks vols links) := by
  refine Linked.newList (links.newList .null reqList) ?_ ?_ ?_ <;> simp [sentReqList]

theorem fit_start (mem : Addr → UInt8) (pkts : Addr → DosPacket) (reqs : Addr → FsRequest)
    (locks : Addr → FsFileLock) (vols : Addr → Volume) (links : Links Node) :
    Fit (start mem pkts reqs locks vols links) := fun _ h => (List.not_mem_nil h).elim

/-- A client whose memory is blank. -/
def blank : State :=
  start (fun _ => 0) (fun _ => ⟨.dos 0, .flush, 0, 0, 0, 0, 0, 0⟩)
    (fun _ => ⟨0, 0, 0, 0, 0, 0, 0, 0, .flush, 0, [], otRequestMin⟩) (fun _ => ⟨0, 0, .dos 0, 0, 0⟩)
    (fun _ => ⟨0, 0, false, 0⟩) ⟨fun _ => .null, fun _ => .null⟩

/-- Nothing is mounted. -/
def noMounting : State.Mounting := ⟨none, false, false, none, false, false⟩

/-- A response of the handler. -/
def respond (r : Addr) (res1 res2 : UInt32) : Event := .response ⟨r, res1, res2, fun _ => 0⟩ none noMounting

/-- The handler asks to mount volume 1, which is put at the address 4096. -/
def mountFirst : Event :=
  .response ⟨mountVolumeKey, 0x10000, 0, fun _ => 0⟩ none ⟨some 4096, true, true, some 8192, true, false⟩

end AmiPiBorg.Fs
