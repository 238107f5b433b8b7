import AmiPiBorg.Fs.Effects

/-!
# What comes of a packet and of a response

`handlePacket_outcome` and `receiveRemoteMessage_outcome` go through all actions once, and say in a few cases what
becomes of the packet. They say nothing of the contents of the reply.
-/

set_option autoImplicit false

namespace AmiPiBorg.Fs

open ProgLib

variable {s s' s'' s₁ : State} {v p r : Addr} {t : Action} {mems : List (Option Addr)} {lock : Option Addr}

/-! ## Replies -/

/-- The message that a reply brings to a volume. -/
def Port.toVolume (port : Port) (p : Addr) : List (Addr × Addr) :=
  match port with
  | .dos _ => []
  | .volume w => [(w, p)]

/-- The packets that DOS waits for after a reply. -/
def Port.toDos (port : Port) (p : Addr) (out : List Addr) : List Addr :=
  match port with
  | .dos _ => out.erase p
  | .volume _ => out

/-- What a reply frees. -/
def State.released (s : State) (r : Option Addr) : List (Addr × UInt16) :=
  match r with
  | none => []
  | some r => if r = 0 then [] else [(r, State.requestType (s.reqs r).length)]

/-- **`FS_ReplyToDosPacket`.** -/
theorem replyToDosPacket_eq (s : State) (v : Addr) (r : Option Addr) (p : Addr) : s.replyToDosPacket v r p =
    { s with
      pkts := Function.update s.pkts p { s.pkts p with port := .volume v }
      msgs := s.msgs ++ (s.pkts p).port.toVolume p
      out := (s.pkts p).port.toDos p s.out
      replied := s.replied ++ [p]
      givenLocks := s.givenLocks ++ State.givenLock v (s.pkts p)
      live := s.live.diff (s.released r)
      freed := s.freed ++ s.released r } := by
  unfold State.replyToDosPacket State.setPkt State.putMsg State.released State.freeRequest Port.toVolume Port.toDos
  cases r with
  | none =>
    dsimp only
    rw [List.append_nil, List.diff_nil]
    cases (s.pkts p).port with
    | dos n => simp only [List.append_nil]
    | volume w => rfl
  | some r =>
    by_cases hr : r = 0
    · simp only [if_pos hr, List.append_nil, List.diff_nil]
      cases (s.pkts p).port with
      | dos n => simp only [List.append_nil]
      | volume w => rfl
    · simp only [if_neg hr, List.diff_cons, List.diff_nil]
      cases (s.pkts p).port with
      | dos n => simp only [List.append_nil]
      | volume w => rfl

/-! ## Quiet changes -/

/-- Everything about packets in general, messages and requests. -/
structure Books where
  reqs : Addr → FsRequest
  links : Links Node
  volList : List Addr
  writeReady : Bool
  reading : Bool
  msgs : List (Addr × Addr)
  queued : List Addr
  unanswered : List Addr
  live : List (Addr × UInt16)
  allocated : List (Addr × UInt16)
  freed : List (Addr × UInt16)
  out : List Addr
  arrived : List Addr
  replied : List Addr
  givenLocks : List (Addr × Addr)

def State.books (s : State) : Books where
  reqs := s.reqs
  links := s.links
  volList := s.volList
  writeReady := s.writeReady
  reading := s.reading
  msgs := s.msgs
  queued := s.queued
  unanswered := s.unanswered
  live := s.live
  allocated := s.allocated
  freed := s.freed
  out := s.out
  arrived := s.arrived
  replied := s.replied
  givenLocks := s.givenLocks

/-- Everything about locks. -/
structure LockBooks where
  locks : Addr → FsFileLock
  vols : Addr → Volume
  liveLocks : List (Addr × Addr)
  allocatedLocks : List (Addr × Addr)
  freedLocks : List (Addr × Addr)

def State.lockBooks (s : State) : LockBooks where
  locks := s.locks
  vols := s.vols
  liveLocks := s.liveLocks
  allocatedLocks := s.allocatedLocks
  freedLocks := s.freedLocks

/-- What has an effect on locks, the caller's memory and the results of the packet `p`, if anything. -/
structure Quiet (p : Addr) (s s' : State) : Prop where
  books : s'.books = s.books
  others : ∀ q, q ≠ p → s'.pkts q = s.pkts q
  type : (s'.pkts p).type = (s.pkts p).type
  port : (s'.pkts p).port = (s.pkts p).port
  arg1 : (s'.pkts p).arg1 = (s.pkts p).arg1

theorem Quiet.reqs (h : Quiet p s s') : s'.reqs = s.reqs := congrArg Books.reqs h.books
theorem Quiet.links (h : Quiet p s s') : s'.links = s.links := congrArg Books.links h.books
theorem Quiet.volList (h : Quiet p s s') : s'.volList = s.volList := congrArg Books.volList h.books
theorem Quiet.writeReady (h : Quiet p s s') : s'.writeReady = s.writeReady := congrArg Books.writeReady h.books
theorem Quiet.msgs (h : Quiet p s s') : s'.msgs = s.msgs := congrArg Books.msgs h.books
theorem Quiet.queued (h : Quiet p s s') : s'.queued = s.queued := congrArg Books.queued h.books
theorem Quiet.unanswered (h : Quiet p s s') : s'.unanswered = s.unanswered := congrArg Books.unanswered h.books
theorem Quiet.live (h : Quiet p s s') : s'.live = s.live := congrArg Books.live h.books
theorem Quiet.allocated (h : Quiet p s s') : s'.allocated = s.allocated := congrArg Books.allocated h.books
theorem Quiet.freed (h : Quiet p s s') : s'.freed = s.freed := congrArg Books.freed h.books
theorem Quiet.out (h : Quiet p s s') : s'.out = s.out := congrArg Books.out h.books
theorem Quiet.arrived (h : Quiet p s s') : s'.arrived = s.arrived := congrArg Books.arrived h.books
theorem Quiet.replied (h : Quiet p s s') : s'.replied = s.replied := congrArg Books.replied h.books
theorem Quiet.givenLocks (h : Quiet p s s') : s'.givenLocks = s.givenLocks := congrArg Books.givenLocks h.books

theorem Quiet.refl (p : Addr) (s : State) : Quiet p s s := ⟨rfl, fun _ _ => rfl, rfl, rfl, rfl⟩

theorem Quiet.trans (h : Quiet p s s') (h' : Quiet p s' s'') : Quiet p s s'' :=
  ⟨h'.books.trans h.books, fun q hq => (h'.others q hq).trans (h.others q hq), h'.type.trans h.type,
    h'.port.trans h.port, h'.arg1.trans h.arg1⟩

theorem setRes_res1 (s : State) (p : Addr) (res1 res2 : UInt32) : ((s.setRes p res1 res2).pkts p).res1 = res1 := by
  have hself : (s.setRes p res1 res2).pkts p = { s.pkts p with res1 := res1, res2 := res2 } :=
    Function.update_self ..
  rw [hself]

/-- Nothing but locks and memory changes. -/
theorem Quiet.of_pkts (hb : s'.books = s.books) (hp : s'.pkts = s.pkts) : Quiet p s s' := by
  refine ⟨hb, fun q _ => ?_, ?_, ?_, ?_⟩ <;> rw [hp]

theorem quiet_setPkt (s : State) {pkt : DosPacket} (ht : pkt.type = (s.pkts p).type) (hp : pkt.port = (s.pkts p).port)
    (ha : pkt.arg1 = (s.pkts p).arg1) : Quiet p s (s.setPkt p pkt) := by
  have hself : (s.setPkt p pkt).pkts p = pkt := Function.update_self ..
  refine ⟨rfl, fun q hq => Function.update_of_ne hq .., ?_, ?_, ?_⟩
  · rw [hself, ht]
  · rw [hself, hp]
  · rw [hself, ha]

theorem quiet_setRes (s : State) (res1 res2 : UInt32) : Quiet p s (s.setRes p res1 res2) := quiet_setPkt s rfl rfl rfl

theorem quiet_setRes1 (s : State) (res1 : UInt32) : Quiet p s (s.setRes1 p res1) := quiet_setPkt s rfl rfl rfl

theorem quiet_freeLock (s : State) (l : Addr) : Quiet p s (s.freeLock v l) := by
  unfold State.freeLock
  split
  · exact .refl p s
  · split
    · exact .refl p s
    · exact .of_pkts rfl rfl

theorem Quiet.core (h : Quiet p s s') (hc : Core s) : Core s' :=
  hc.congr h.links h.queued h.unanswered h.writeReady h.live

theorem Quiet.freshReqs (h : Quiet p s s') (hf : FreshReqs s mems) : FreshReqs s' mems := by
  unfold FreshReqs
  rw [h.live]
  exact hf

/-! ## Packets -/

/-- The type of the request for a packet. -/
def Action.sentAs : Action → Action
  | .diskInfo => .info
  | t => t

/-- What becomes of a packet. -/
inductive Outcome (v p : Addr) (mems : List (Option Addr)) (lock : Option Addr) (s s' : State) : Prop
  /-- It is replied to. -/
  | replied (s₁ : State) (quiet : Quiet p s s₁)
    (locks : s₁.lockBooks = s.lockBooks ∨ (s.pkts p).type = .copyDir ∧ s₁ = s.actionCopyDir v p lock)
    (given : ((s.pkts p).type = .freeLock → s.lockKey (s.pkts p).arg1 = 0) ∧
      ((s.pkts p).type = .fhFromLock → (s₁.pkts p).res1 = dosFalse)) (eq : s' = s₁.replyToDosPacket v none p)
  /-- One request is made for it. -/
  | asked (s₁ : State) (r : Addr) (quiet : Quiet p s s₁) (locks : s₁.lockBooks = s.lockBooks)
    (mem : [r].Sublist mems.reduceOption) (asks : Asks v p (s.pkts p).type.sentAs [r] s₁ s')
    (write : (s.pkts p).type ≠ .write)
  /-- As many requests are made as there are chunks to write. -/
  | wrote (s₁ : State) (new : List Addr) (quiet : Quiet p s s₁) (locks : s₁.lockBooks = s.lockBooks)
    (mem : new.Sublist mems.reduceOption) (asks : Asks v p .write new s₁ s') (type : (s.pkts p).type = .write)
    (mounted : (s.vols v).mounted = true) (chunks : Chunked (State.bytesToWrite (s.pkts p)) new s')
  /-- A request is made for it, and it is replied to. -/
  | ended (s₁ : State) (r : Addr) (mem : [r].Sublist mems.reduceOption) (asks : Asks v p .end [r] s s₁)
    (type : (s.pkts p).type = .end) (mounted : (s.vols v).mounted = true) (eq : s' = s₁.replyToDosPacket v none p)

theorem singleton_sublist_of_cons {l : List (Option Addr)} (h : mems = some r :: l) : [r].Sublist mems.reduceOption := by
  rw [h, List.reduceOption_cons_of_some]
  exact (List.nil_sublist _).cons_cons r

/-- An action that makes one request. -/
theorem Outcome.request {length : UInt16} {fill : FsRequest → Option FsRequest}
    (h : s₁.request v p t length mems.head?.join fill = some s') (hc : Core s) (hf : FreshReqs s mems)
    (hq : Quiet p s s₁) (hl : s₁.lockBooks = s.lockBooks) (hfill : Fills length fill)
    (hw : (s.pkts p).type ≠ .write) (ht : t = (s.pkts p).type.sentAs) : Outcome v p mems lock s s' := by
  obtain ⟨r, mems', hm, ha, -⟩ := request_asks (hq.core hc) (hq.freshReqs hf) h hfill
  exact .asked s₁ r hq hl (singleton_sublist_of_cons hm) (ht ▸ ha) hw

/-- An action that fills in nothing but the argument slots of its request. -/
theorem Outcome.args {a : Action} {f : FsRequest → FsRequest} (ht : (s.pkts p).type = a)
    (h : s₁.request v p t 0 mems.head?.join (fun req => some (f req)) = some s') (hc : Core s) (hf : FreshReqs s mems)
    (hq : Quiet p s s₁) (hl : s₁.lockBooks = s.lockBooks) (hs : SameButArgs f) (hw : a ≠ .write) (hsent : t = a.sentAs) :
    Outcome v p mems lock s s' := by
  subst ht
  exact .request h hc hf hq hl (fills_args hs) hw hsent

theorem outcome_freeLock (hc : Core s) (hf : FreshReqs s mems) (ht : (s.pkts p).type = .freeLock)
    (h : s.actionFreeLock v p mems.head?.join = some s') : Outcome v p mems lock s s' := by
  unfold State.actionFreeLock at h
  dsimp only at h
  split at h
  case isTrue hk =>
    cases h
    exact .replied _ (quiet_setRes1 s _) (.inl rfl) ⟨fun _ => hk, fun he => absurd (ht.symm.trans he) (by decide)⟩ rfl
  case isFalse =>
    exact .args ht h hc hf (.refl p s) rfl (fun _ => ⟨rfl, rfl, rfl, rfl, rfl⟩) (by decide) rfl

theorem bytesToWrite_lt (pkt : DosPacket) : State.bytesToWrite pkt < 2 ^ 32 := by
  unfold State.bytesToWrite
  have := pkt.arg3.toInt32.toInt_lt
  omega

theorem quiet_copyDir (s : State) : Quiet p s (s.actionCopyDir v p lock) := by
  unfold State.actionCopyDir
  cases lock with
  | none => exact quiet_setRes s _ _
  | some l =>
    dsimp only [State.allocLock]
    refine Quiet.trans ?_ (quiet_setRes _ _ _)
    split <;> exact .of_pkts rfl rfl

/-- An action that replies at once with some result. -/
theorem Outcome.at_once (h : some (s₁.replyToDosPacket v none p) = some s') (hq : Quiet p s s₁)
    (hl : s₁.lockBooks = s.lockBooks) (ht : (s.pkts p).type ≠ .freeLock)
    (hfh : (s.pkts p).type = .fhFromLock → (s₁.pkts p).res1 = dosFalse) : Outcome v p mems lock s s' :=
  .replied s₁ hq (.inl hl) ⟨fun he => absurd he ht, hfh⟩ (Option.some.inj h).symm

theorem outcome_mounted (hc : Core s) (hf : FreshReqs s mems) (hm : (s.vols v).mounted = true)
    (h : s.handlePacket v p mems lock = some s') : Outcome v p mems lock s s' := by
  unfold State.handlePacket at h
  rw [if_pos hm] at h
  cases ht : (s.pkts p).type with
  | freeLock =>
    rw [ht] at h
    exact outcome_freeLock hc hf ht h
  | copyDir =>
    rw [ht] at h
    cases h
    refine .replied _ (quiet_copyDir s) (.inr ⟨ht, rfl⟩) ⟨fun he => ?_, fun he => ?_⟩ rfl
    all_goals cases ht.symm.trans he
  | isFilesystem | setProtect | setComment | setDate | currentVolume | other =>
    rw [ht] at h
    exact .at_once h (quiet_setRes s _ _) rfl (by rw [ht]; simp) fun he => by cases ht.symm.trans he
  | sameLock =>
    rw [ht] at h
    dsimp only [State.actionSameLock] at h
    split at h
    · exact .at_once h (quiet_setRes1 s _) rfl (by rw [ht]; decide) fun he => by cases ht.symm.trans he
    · exact .args ht h hc hf (.refl p s) rfl (fun _ => ⟨rfl, rfl, rfl, rfl, rfl⟩) (by decide) rfl
  | examineObject =>
    rw [ht] at h
    dsimp only [State.actionExamine] at h
    split at h
    · exact .at_once h (.of_pkts rfl rfl) rfl (by rw [ht]; decide) fun he => by cases ht.symm.trans he
    · exact .args ht h hc hf (.refl p s) rfl (fun _ => ⟨rfl, rfl, rfl, rfl, rfl⟩) (by decide) rfl
  | diskInfo | info =>
    rw [ht] at h
    dsimp only [State.actionInfo] at h
    rw [if_pos hm] at h
    exact .args ht h hc hf (.refl p s) rfl (fun _ => ⟨rfl, rfl, rfl, rfl, rfl⟩) (by decide) rfl
  | examineNext =>
    rw [ht] at h
    dsimp only [State.actionExamineNext] at h
    split at h
    all_goals
      exact .args ht h hc hf (.of_pkts rfl rfl) rfl (fun _ => ⟨rfl, rfl, rfl, rfl, rfl⟩) (by decide) rfl
  | examineFh | seek | fhFromLock =>
    rw [ht] at h
    dsimp only [State.actionExamineFh, State.actionSeek, State.actionFhFromLock] at h
    exact .args ht h hc hf (.refl p s) rfl (fun _ => ⟨rfl, rfl, rfl, rfl, rfl⟩) (by decide) rfl
  | parent | parentFh =>
    rw [ht] at h
    dsimp only [State.actionParent, State.actionParentFh, State.parentRequest] at h
    exact .args ht h hc hf (quiet_setPkt s rfl rfl rfl) rfl (fun _ => ⟨rfl, rfl, rfl, rfl, rfl⟩) (by decide) rfl
  | read =>
    rw [ht] at h
    dsimp only [State.actionRead] at h
    exact .args ht h hc hf (quiet_setRes1 s _) rfl (fun _ => ⟨rfl, rfl, rfl, rfl, rfl⟩) (by decide) rfl
  | write =>
    rw [ht] at h
    have hq : Quiet p s (s.setRes1 p 0) := quiet_setRes1 s _
    obtain ⟨new, hsub, ha, hch⟩ := writeChunks_asks (hq.core hc) (hq.freshReqs hf) (bytesToWrite_lt _) h
    exact .wrote _ new hq rfl hsub ha ht hm hch
  | locateObject | findInput | findOutput | findUpdate | flush =>
    rw [ht] at h
    dsimp only [State.actionLocateObject, State.actionOpen] at h
    refine .request h hc hf (.refl p s) rfl (fills_append (f := id) ?_ ?_ _ _ _) (by rw [ht]; decide) (by rw [ht]; rfl)
    all_goals exact fun _ => ⟨rfl, rfl, rfl, rfl, rfl⟩
  | createDir | deleteObject =>
    rw [ht] at h
    dsimp only [State.actionCreateDir, State.actionDeleteObject, State.nameRequest] at h
    refine .request h hc hf (.refl p s) rfl (fills_append_last ?_ _ _ _) (by rw [ht]; decide) (by rw [ht]; rfl)
    exact fun _ => ⟨rfl, rfl, rfl, rfl, rfl⟩
  | renameObject =>
    rw [ht] at h
    dsimp only [State.actionRenameObject] at h
    refine .request h hc hf (.refl p s) rfl (fills_append_twice ?_ ?_ _ _ _ _ _ _) (by rw [ht]; decide)
      (by rw [ht]; rfl)
    all_goals exact fun _ => ⟨rfl, rfl, rfl, rfl, rfl⟩
  | «end» =>
    rw [ht] at h
    obtain ⟨s₁, h₁, rfl⟩ := Option.map_eq_some_iff.1 h
    unfold State.actionEnd at h₁
    obtain ⟨r, mems', hr, ha, -⟩ := request_asks hc hf h₁ (fills_args fun _ => ⟨rfl, rfl, rfl, rfl, rfl⟩)
    exact .ended s₁ r (singleton_sublist_of_cons hr) ha ht hm rfl

/-- **What becomes of a packet.** -/
theorem handlePacket_outcome (hc : Core s) (hf : FreshReqs s mems) (h : s.handlePacket v p mems lock = some s') :
    Outcome v p mems lock s s' := by
  by_cases hm : (s.vols v).mounted = true
  · exact outcome_mounted hc hf hm h
  · unfold State.handlePacket at h
    rw [if_neg hm] at h
    cases ht : (s.pkts p).type with
    | freeLock =>
      rw [ht] at h
      exact outcome_freeLock hc hf ht h
    | diskInfo =>
      rw [ht] at h
      dsimp only at h
      unfold State.actionInfo at h
      rw [if_neg hm] at h
      exact .at_once h (quiet_setRes1 s _) rfl (by rw [ht]; decide) fun he => by cases ht.symm.trans he
    | _ =>
      rw [ht] at h
      exact .at_once h (quiet_setRes s _ _) rfl (by rw [ht]; simp) fun _ => setRes_res1 s p _ _

/-! ## Responses -/

/-- What a response does to locks. -/
def LockEffect (v : Addr) (res : FsResponse) (p : Addr) (lock : Option Addr) (s s' : State) : Prop :=
  match (s.pkts p).type with
  | .locateObject | .parent | .parentFh => s' = s.actionLocateObjectReply v res p lock
  | .createDir => s.actionCreateDirReply v res p lock = some s'
  | .freeLock => s' = s.actionFreeLockReply v p
  | .fhFromLock => s' = s.actionFhFromLockReply v res p
  | _ => s'.lockBooks = s.lockBooks

/-- What becomes of the packet of a response. -/
inductive Answered (v : Addr) (res : FsResponse) (p : Addr) (lock : Option Addr) (s s' : State) : Prop
  /-- More responses are awaited. -/
  | awaited (quiet : Quiet p s s') (locks : s'.lockBooks = s.lockBooks)
    (type : (s.pkts p).type = .read ∨ (s.pkts p).type = .write) (res2 : res.res2 = 0)
  /-- It is replied to. -/
  | replied (s₁ : State) (quiet : Quiet p s s₁) (locks : LockEffect v res p lock s s₁)
    (res2 : (s.pkts p).type = .read ∨ (s.pkts p).type = .write → res.res2 ≠ 0)
    (eq : s' = s₁.replyToDosPacket v (some res.req) p)

variable {res : FsResponse}

/-- A response to anything but a read or a write. -/
theorem Answered.of_reply (h : some (s₁.replyToDosPacket v (some res.req) p) = some s') (hq : Quiet p s s₁)
    (hl : LockEffect v res p lock s s₁) (ht : (s.pkts p).type ≠ .read ∧ (s.pkts p).type ≠ .write) :
    Answered v res p lock s s' :=
  .replied s₁ hq hl (fun he => absurd he (not_or.2 ht)) (Option.some.inj h).symm

theorem quiet_locateObjectReply (s : State) : Quiet p s (s.actionLocateObjectReply v res p lock) := by
  unfold State.actionLocateObjectReply
  split
  · exact quiet_setRes s _ _
  · cases lock with
    | none => exact quiet_setRes s _ _
    | some l =>
      dsimp only [State.allocLock]
      refine Quiet.trans ?_ (quiet_setRes _ _ _)
      exact .of_pkts rfl rfl

/-- A response to a read or a write replies to the packet, or does not. -/
theorem answered_data (h : (if res.res2 = 0 then s₁
      else if res.res2 = minusOne then s₁.replyToDosPacket v (some res.req) p
      else (s₁.setRes p res.res1 res.res2).replyToDosPacket v (some res.req) p) = s')
    (hq : Quiet p s s₁) (hl : s₁.lockBooks = s.lockBooks)
    (ht : (s.pkts p).type = .read ∨ (s.pkts p).type = .write) : Answered v res p lock s s' := by
  have hle : ∀ s₂ : State, s₂.lockBooks = s.lockBooks → LockEffect v res p lock s s₂ := by
    intro s₂ h₂
    unfold LockEffect
    obtain ht | ht := ht <;> rw [ht] <;> exact h₂
  split at h
  case isTrue hz =>
    rw [← h]
    exact .awaited hq hl ht hz
  case isFalse hz =>
    split at h
    · exact .replied s₁ hq (hle _ hl) (fun _ => hz) h.symm
    · exact .replied _ (hq.trans (quiet_setRes s₁ _ _)) (hle _ hl) (fun _ => hz) h.symm

/-- **What becomes of the packet of a response.** -/
theorem receiveRemoteMessage_outcome (hp : (s.reqs res.req).pkt = p)
    (h : s.receiveRemoteMessage v res lock = some s') : Answered v res p lock s s' := by
  subst hp
  unfold State.receiveRemoteMessage at h
  generalize (s.reqs res.req).pkt = p at h ⊢
  dsimp only at h
  cases ht : (s.pkts p).type with
  | locateObject | parent | parentFh =>
    rw [ht] at h
    exact .of_reply h (quiet_locateObjectReply s) (by unfold LockEffect; rw [ht]) (by rw [ht]; decide)
  | freeLock =>
    rw [ht] at h
    refine .of_reply h ?_ (by unfold LockEffect; rw [ht]) (by rw [ht]; decide)
    unfold State.actionFreeLockReply
    dsimp only
    split
    · exact (quiet_freeLock s _).trans (quiet_setRes1 _ _)
    · exact quiet_setRes1 s _
  | diskInfo | info =>
    rw [ht] at h
    exact .of_reply h (quiet_setRes1 s _) (by unfold LockEffect; rw [ht]; rfl) (by rw [ht]; decide)
  | findInput | findOutput | findUpdate =>
    rw [ht] at h
    have hl : (s.actionOpenReply res p).lockBooks = s.lockBooks := by
      unfold State.actionOpenReply
      split <;> rfl
    refine .of_reply h ?_ (by unfold LockEffect; rw [ht]; exact hl) (by rw [ht]; decide)
    unfold State.actionOpenReply
    dsimp only
    split
    · exact (quiet_setRes1 s res.res1).trans (.of_pkts rfl rfl)
    · exact quiet_setRes s _ _
  | examineObject | examineNext | examineFh =>
    rw [ht] at h
    have hl : (s.actionExamineReply res p).lockBooks = s.lockBooks := by
      unfold State.actionExamineReply
      split <;> rfl
    refine .of_reply h ?_ (by unfold LockEffect; rw [ht]; exact hl) (by rw [ht]; decide)
    unfold State.actionExamineReply
    split
    · exact (quiet_setRes1 s res.res1).trans (.of_pkts rfl rfl)
    · exact quiet_setRes s _ _
  | read =>
    rw [ht] at h
    dsimp only [State.actionReadReply] at h
    obtain ⟨s₁, h₁, h₂⟩ := Option.map_eq_some_iff.1 h
    split at h₁
    · split at h₁
      · cases h₁
      · cases h₁
        exact answered_data h₂ ((quiet_setRes s _ _).trans (.of_pkts rfl rfl)) rfl (.inl ht)
    · cases h₁
      exact answered_data h₂ (.refl p s) rfl (.inl ht)
  | write =>
    rw [ht] at h
    dsimp only [State.actionWriteReply] at h
    refine answered_data (Option.some.inj h) ?_ ?_ (.inr ht)
    · split
      · exact quiet_setRes s _ _
      · exact .refl p s
    · split <;> rfl
  | fhFromLock =>
    rw [ht] at h
    refine .of_reply h ?_ (by unfold LockEffect; rw [ht]) (by rw [ht]; decide)
    unfold State.actionFhFromLockReply
    dsimp only
    split
    · refine Quiet.trans (Quiet.trans ?_ (quiet_freeLock _ _)) (quiet_setRes _ _ _)
      exact .of_pkts rfl rfl
    · exact quiet_setRes s _ _
  | createDir =>
    rw [ht] at h
    obtain ⟨s₁, h₁, h₂⟩ := Option.map_eq_some_iff.1 h
    refine .of_reply (congrArg some h₂) ?_ (by unfold LockEffect; rw [ht]; exact h₁) (by rw [ht]; decide)
    unfold State.actionCreateDirReply at h₁
    dsimp only at h₁
    split at h₁
    · split at h₁
      · cases h₁
      · cases h₁
        exact (quiet_locateObjectReply s).trans (.of_pkts rfl rfl)
    · cases h₁
      exact quiet_locateObjectReply s
  | _ =>
    rw [ht] at h
    exact .of_reply h (quiet_setRes s _ _) (by unfold LockEffect; rw [ht]; rfl) (by rw [ht]; simp)

end AmiPiBorg.Fs
