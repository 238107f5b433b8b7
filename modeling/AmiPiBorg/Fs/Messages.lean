import AmiPiBorg.Fs.Steps

/-!
# Messages at the ports of the volumes

A step takes at most one message, and all it does besides is to add some at the end: replies may come back to a port of
the client itself. This is so for any state, whatever is allocated (`step_msgs`).
-/

set_option autoImplicit false

namespace AmiPiBorg.Fs

variable {s s' : State} {v p : Addr} {t : Action} {mem lock : Option Addr} {mems : List (Option Addr)}
  {res : FsResponse}

theorem sendReq_msgs (h : s.sendReq = some s') : s'.msgs = s.msgs := by
  obtain ⟨links, written, ready, queued, unanswered, rfl⟩ := sendReq_frame h
  rfl

theorem request_msgs {length : UInt16} {fill : FsRequest → Option FsRequest}
    (h : s.request v p t length mem fill = some s') : s'.msgs = s.msgs := by
  unfold State.request State.allocRequest at h
  cases mem with
  | none => cases h
  | some r =>
    dsimp only at h
    split at h
    · cases h
    · obtain ⟨links, written, ready, queued, unanswered, rfl⟩ := enqueueRequest_frame h
      rfl

theorem writeChunks_msgs {mems : List (Option Addr)} {s : State} {data : Addr} {n : Nat}
    (h : State.writeChunks v p mems s data n = some s') : s'.msgs = s.msgs := by
  induction mems generalizing s data n with
  | nil =>
    cases n with
    | zero =>
      cases h
      rfl
    | succ n => cases h
  | cons mem mems ih =>
    cases n with
    | zero =>
      cases h
      rfl
    | succ n =>
      obtain ⟨s₁, h₁, h⟩ := Option.bind_eq_some_iff.1 h
      unfold State.writeChunk at h₁
      rw [ih h, request_msgs h₁]

/-- A reply may come back to a port of the client itself. -/
theorem reply_msgs (s : State) (v : Addr) (r : Option Addr) (p : Addr) :
    s.msgs <+: (s.replyToDosPacket v r p).msgs := by
  rw [replyToDosPacket_eq]
  exact List.prefix_append _ _

theorem actionCopyDir_msgs (s : State) (v p : Addr) (lock : Option Addr) :
    (s.actionCopyDir v p lock).msgs = s.msgs := (quiet_copyDir s).msgs

theorem actionFreeLock_msgs (h : s.actionFreeLock v p mem = some s') : s.msgs <+: s'.msgs := by
  unfold State.actionFreeLock at h
  dsimp only at h
  split at h
  · cases h
    exact reply_msgs (s.setRes1 p dosTrue) v none p
  · rw [request_msgs h]

theorem handlePacket_msgs (h : s.handlePacket v p mems lock = some s') : s.msgs <+: s'.msgs := by
  have hreply : ∀ u : State, u.msgs = s.msgs → s.msgs <+: (u.replyToDosPacket v none p).msgs := by
    intro u hu
    rw [← hu]
    exact reply_msgs u v none p
  unfold State.handlePacket at h
  dsimp only at h
  split at h
  case isTrue hm =>
    cases ht : (s.pkts p).type <;> rw [ht] at h
    case freeLock => exact actionFreeLock_msgs h
    case copyDir =>
      cases h
      exact hreply _ (actionCopyDir_msgs s v p lock)
    case isFilesystem | setProtect | setComment | setDate | currentVolume | other =>
      cases h
      exact hreply _ rfl
    case sameLock =>
      dsimp only [State.actionSameLock] at h
      split at h
      · cases h
        exact hreply _ rfl
      · rw [request_msgs h]
    case examineObject =>
      dsimp only [State.actionExamine] at h
      split at h
      · cases h
        exact hreply _ rfl
      · rw [request_msgs h]
    case diskInfo | info =>
      dsimp only [State.actionInfo] at h
      rw [if_pos hm] at h
      rw [request_msgs h]
    case examineNext =>
      dsimp only [State.actionExamineNext] at h
      have hm := request_msgs h
      split at hm <;> rw [hm]
    case write =>
      have hm : s'.msgs = (s.setRes1 p 0).msgs := writeChunks_msgs h
      rw [hm]
      exact List.prefix_rfl
    case «end» =>
      obtain ⟨s₁, h₁, rfl⟩ := Option.map_eq_some_iff.1 h
      exact hreply s₁ (request_msgs h₁)
    case parent | parentFh | read =>
      dsimp only [State.actionParent, State.actionParentFh, State.parentRequest, State.actionRead] at h
      rw [request_msgs h]
      exact List.prefix_rfl
    all_goals
      dsimp only [State.actionLocateObject, State.actionOpen, State.actionExamineFh, State.actionSeek,
        State.actionFhFromLock, State.actionCreateDir, State.actionDeleteObject, State.nameRequest,
        State.actionRenameObject] at h
      rw [request_msgs h]
  case isFalse hm =>
    split at h
    · exact actionFreeLock_msgs h
    · dsimp only [State.actionInfo] at h
      rw [if_neg hm] at h
      cases h
      exact hreply _ rfl
    · cases h
      exact hreply _ rfl

theorem Answered.msgs (h : Answered v res p lock s s') : s.msgs <+: s'.msgs := by
  cases h with
  | awaited hq _ _ _ => rw [hq.msgs]
  | replied s₁ hq _ _ he =>
    rw [he, ← hq.msgs]
    exact reply_msgs s₁ v (some res.req) p

theorem receiveResponse_msgs {m : State.Mounting} (h : s.receiveResponse res lock m = some s') :
    s.msgs <+: s'.msgs := by
  obtain ⟨-, rfl⟩ | ⟨-, rfl⟩ | ⟨-, h⟩ := receiveResponse_cases h
  · obtain ⟨vols, volList, he⟩ := handleMountVolume_eq s (res.res1 >>> 16).toUInt16 m
    rw [he]
  · obtain ⟨vols, he⟩ := handleUnmountVolume_eq s (res.res1 >>> 16).toUInt16
    rw [he]
  · exact (receiveRemoteMessage_outcome rfl h).msgs

/-- What is at the ports of the volumes once a step of the client has taken its message. -/
def State.kept (s : State) : Event → List (Addr × Addr)
  | .dos v _ _ => (s.msgs.find? fun m => m.1 = v).elim s.msgs s.msgs.erase
  | _ => s.msgs

/-- **A step takes the message that it is about, and adds others at the end.** -/
theorem step_msgs {e : Event} (h : step s e = some s') : s.kept e <+: s'.msgs := by
  cases e with
  | arrive v p pkt =>
    cases h
    exact List.prefix_append _ _
  | dos v mems lock =>
    change s.receiveDosMessage v mems lock = some s' at h
    unfold State.receiveDosMessage at h
    cases hm : s.msgs.find? fun m => m.1 = v with
    | none =>
      rw [hm] at h
      cases h
    | some m =>
      rw [hm] at h
      dsimp only [State.kept]
      rw [hm]
      exact handlePacket_msgs h
  | response res lock m => exact receiveResponse_msgs h
  | writerReply =>
    have hm := sendReq_msgs h
    change s.msgs <+: s'.msgs
    rw [hm]
  | readerError | poke =>
    cases h
    exact List.prefix_rfl

end AmiPiBorg.Fs
