import AmiPiBorg.Client.Defs

/-!
# When a call frees its request

The signal of the port says that some message came, not that the reply did. So a call that wakes up takes whatever
message is first, if there is one, and frees its request in any case. That is right if the first message is the reply
to its request and only then (`freesDone_iff`), which the run of a client keeps in order (`InOrder.step`).
-/

set_option autoImplicit false

namespace AmiPiBorg.Client

open ProgLib

variable {s s' : State} {e : Event} {w : Waiting} {r : Nat}

/-- The request that a call frees in this step. -/
def freedBy (s : State) : Event → Option Nat
  | .call _ _ mem server => if server then none else mem
  | .wake => s.waiting.map Waiting.req
  | _ => none

/-- A call frees a request that the server is done with, and takes no other message from the port. -/
def FreesDone (s : State) (e : Event) : Prop :=
  ∀ s', step s e = some s' → ∀ r ∈ freedBy s e, r ∉ s'.held ∧ (s'.msgs = s.msgs ∨ r :: s'.msgs = s.msgs)

/-- Whether `Wait` returns. -/
def awake (s : State) : Bool := s.portSig || s.breakSig

/-- A call that wakes up finds the reply to its request first on the port. -/
def ReplyFirst (s : State) : Event → Prop
  | .wake => ∀ w ∈ s.waiting, awake s → s.msgs.head? = some w.req
  | _ => True

instance (s : State) : (e : Event) → Decidable (ReplyFirst s e)
  | .wake | .reply .. | .signal | .ctrlC | .call .. | .alloc .. | .send .. | .getMsg | .clear | .free _ => by
    unfold ReplyFirst; infer_instance

/-! ## Where the requests are -/

/-- Every request is in one place, and that of a waiting call is with the server or on the port. -/
structure InOrder (s : State) : Prop where
  nodup : (s.held ++ s.msgs).Nodup
  allocated : ∀ r ∈ s.held ++ s.msgs, r ∈ s.allocated
  allocated_nodup : s.allocated.Nodup
  waiting : ∀ w ∈ s.waiting, w.req ∈ s.held ∨ w.req ∈ s.msgs ∧ s.portSig = true

theorem inOrder_start (conns : Nat → Connection) (reqs : Nat → Request) : InOrder (start conns reqs) where
  nodup := List.nodup_nil
  allocated _ h := (List.not_mem_nil h).elim
  allocated_nodup := List.nodup_nil
  waiting _ h := (Option.not_mem_none _ h).elim

theorem InOrder.not_held (h : InOrder s) (hr : r ∈ s.msgs) : r ∉ s.held :=
  fun hh => (List.nodup_append.1 h.nodup).2.2 r hh r hr rfl

/-! ## What the steps do -/

theorem isNone_of_step {α : Type} {o : Option α} {x s' : State} (h : (if o.isSome then none else some x) = some s') :
    o = none ∧ x = s' := by
  cases o with
  | none => exact ⟨rfl, Option.some.inj h⟩
  | some a => cases h

/-- A call that finds no server leaves the messages and the requests of others alone. -/
theorem request_false (s : State) (op : Op) (c : Nat) (fill : Request → Request) :
    let t := s.request op c (some r) false fill
    t.held = s.held ∧ t.msgs = s.msgs ∧ t.waiting = s.waiting ∧ t.allocated = (s.allocated ++ [r]).erase r :=
  ⟨rfl, rfl, rfl, rfl⟩

theorem request_true (s : State) (op : Op) (c : Nat) (fill : Request → Request) :
    let t := s.request op c (some r) true fill
    t.held = s.held ++ [r] ∧ t.msgs = s.msgs ∧ t.waiting = some ⟨op, c, r⟩ ∧ t.allocated = s.allocated ++ [r] :=
  ⟨rfl, rfl, rfl, rfl⟩

theorem resume_eq (s : State) (w : Waiting) (sig : Bool) :
    let t := s.resume w sig
    t.held = s.held ∧ t.msgs = (if sig then s.msgs.tail else s.msgs) ∧ t.waiting = none ∧
      t.allocated = s.allocated.erase w.req := by
  cases sig <;> exact ⟨rfl, rfl, rfl, rfl⟩

/-- A call that wakes up. -/
theorem wake_some (h : step s .wake = some s') : ∃ w, s.waiting = some w ∧ awake s = true ∧ s'.held = s.held ∧
    s'.msgs = (if s.portSig then s.msgs.tail else s.msgs) ∧ s'.waiting = none ∧
      s'.allocated = s.allocated.erase w.req := by
  change s.wake = some s' at h
  unfold State.wake at h
  cases hw : s.waiting with
  | none =>
    rw [hw] at h
    cases h
  | some w =>
    rw [hw] at h
    by_cases ha : awake s = true
    · rw [show (s.portSig || s.breakSig) = true from ha] at h
      obtain ⟨hh, hm, hn, hall⟩ := resume_eq
        { s with portSig := false, breakSig := false, waiting := some w } w s.portSig
      cases h
      exact ⟨w, rfl, ha, hh, hm, hn, hall⟩
    · have hf : (s.portSig || s.breakSig) = false := Bool.eq_false_of_not_eq_true ha
      rw [hf] at h
      cases h

theorem wake_of_awake (hw : s.waiting = some w) (ha : awake s = true) : ∃ s', step s .wake = some s' := by
  change ∃ s', s.wake = some s'
  unfold State.wake
  rw [hw]
  exact ⟨_, if_pos ha⟩

/-- The two calls differ in what they write into the request. -/
theorem call_some {op : Op} {c : Nat} {mem : Option Nat} {server : Bool}
    (h : step s (.call op c mem server) = some s') :
    s.waiting = none ∧ ∃ fill, s' = s.request op c mem server fill := by
  cases op with
  | «open» =>
    obtain ⟨hw, rfl⟩ := isNone_of_step h
    exact ⟨hw, _, rfl⟩
  | close =>
    obtain ⟨hw, rfl⟩ := isNone_of_step h
    exact ⟨hw, _, rfl⟩

/-! ## Every step keeps the order -/

theorem InOrder.fresh (h : InOrder s) (hr : r ∉ s.allocated) : r ∉ s.held ++ s.msgs :=
  fun hm => hr (h.allocated r hm)

theorem nodup_concat {l : List Nat} (h : l.Nodup) (hr : r ∉ l) : (l ++ [r]).Nodup :=
  List.nodup_append.2 ⟨h, List.nodup_singleton r, fun a ha b hb he => by
    rw [List.mem_singleton.1 hb] at he
    exact hr (he ▸ ha)⟩

/-- Memory that is got is in nobody's hands. -/
theorem InOrder.alloc (h : InOrder s) (hw : s.waiting = none) (hr : r ∉ s.allocated)
    (hh : s'.held = s.held) (hm : s'.msgs = s.msgs) (hs : s'.waiting = s.waiting)
    (ha : s'.allocated = s.allocated ++ [r]) : InOrder s' := by
  constructor
  · rw [hh, hm]
    exact h.nodup
  · intro a hx
    rw [hh, hm] at hx
    rw [ha]
    exact List.mem_append_left _ (h.allocated a hx)
  · rw [ha]
    exact nodup_concat h.allocated_nodup hr
  · intro w hx
    rw [hs, hw] at hx
    cases hx

/-- A request that is passed on has been in the hands of the client. -/
theorem InOrder.pass (h : InOrder s) (hr : r ∉ s.held ++ s.msgs) (hin : r ∈ s'.allocated)
    (hh : s'.held = s.held ++ [r]) (hm : s'.msgs = s.msgs) (hs : ∀ w ∈ s'.waiting, w.req = r)
    (ha : ∀ a ∈ s.allocated, a ∈ s'.allocated) (hd : s'.allocated.Nodup) : InOrder s' := by
  have hperm : (s'.held ++ s'.msgs).Perm (r :: (s.held ++ s.msgs)) := by
    rw [hh, hm, List.append_assoc, List.singleton_append]
    exact List.perm_middle
  constructor
  · rw [hperm.nodup_iff]
    exact List.nodup_cons.2 ⟨hr, h.nodup⟩
  · intro a hx
    obtain rfl | hx := List.mem_cons.1 (hperm.mem_iff.1 hx)
    · exact hin
    · exact ha a (h.allocated a hx)
  · exact hd
  · intro w hx
    left
    rw [hs w hx, hh]
    exact List.mem_append_right _ (List.mem_singleton_self r)

/-- A request that is freed is in nobody's hands. -/
theorem InOrder.freed (h : InOrder s) (hr : r ∉ s.held ++ s'.msgs) (hsub : s'.msgs.Sublist s.msgs)
    (hh : s'.held = s.held) (hs : s'.waiting = none) (ha : s'.allocated = s.allocated.erase r) : InOrder s' := by
  have hsub' : (s'.held ++ s'.msgs).Sublist (s.held ++ s.msgs) := by
    rw [hh]
    exact hsub.append_left _
  constructor
  · exact h.nodup.sublist hsub'
  · intro a hx
    rw [ha]
    refine (List.mem_erase_of_ne ?_).2 (h.allocated a (hsub'.subset hx))
    rintro rfl
    rw [hh] at hx
    exact hr hx
  · rw [ha]
    exact h.allocated_nodup.erase r
  · intro w hx
    rw [hs] at hx
    cases hx

theorem InOrder.reply (h : InOrder s) (hr : r ∈ s.held) (state connId : UInt16) : InOrder (s.replyMsg r state connId) := by
  have hperm : (s.held.erase r ++ (s.msgs ++ [r])).Perm (s.held ++ s.msgs) := by
    rw [← List.append_assoc]
    refine (List.perm_append_singleton r _).trans ?_
    exact ((List.perm_cons_erase hr).append_right s.msgs).symm
  constructor
  · exact hperm.nodup_iff.2 h.nodup
  · intro a hx
    exact h.allocated a (hperm.mem_iff.1 hx)
  · exact h.allocated_nodup
  · intro w hx
    by_cases he : w.req = r
    · right
      exact ⟨List.mem_append_right _ (List.mem_singleton.2 he), rfl⟩
    · obtain hh | ⟨hm, -⟩ := h.waiting w hx
      · left
        exact (List.mem_erase_of_ne he).2 hh
      · right
        exact ⟨List.mem_append_left _ hm, rfl⟩

/-- The steps that only set or clear signals. -/
theorem InOrder.signals (h : InOrder s) (port brk : Bool) (hp : s.waiting = none ∨ (s.portSig = true → port = true)) :
    InOrder { s with portSig := port, breakSig := brk } := by
  refine ⟨h.nodup, h.allocated, h.allocated_nodup, fun w hw => ?_⟩
  obtain hn | hp := hp
  · rw [show s.waiting = some w from hw] at hn
    cases hn
  · exact (h.waiting w hw).imp_right fun hm => ⟨hm.1, hp hm.2⟩

/-- A call whose reply is first on the port takes this one message. -/
theorem msgs_of_head (h : InOrder s) (hw : s.waiting = some w) (hf : s.msgs.head? = some w.req) :
    s.portSig = true ∧ w.req :: s.msgs.tail = s.msgs := by
  have hcons := List.eq_cons_of_mem_head? hf
  have hmem : w.req ∈ s.msgs := List.mem_of_mem_head? hf
  constructor
  · obtain hh | ⟨-, hp⟩ := h.waiting w hw
    · exact absurd hh (h.not_held hmem)
    · exact hp
  · exact hcons.symm

/-- **One step.** -/
theorem InOrder.step (h : InOrder s) (hl : Legal s e) (hf : ReplyFirst s e) (hs : step s e = some s') : InOrder s' := by
  cases e with
  | call op c mem server =>
    obtain ⟨hw, fill, rfl⟩ := call_some hs
    cases mem with
    | none => exact h
    | some r =>
      have hr : r ∉ s.allocated := hl r rfl
      cases server with
      | false =>
        obtain ⟨hh, hm, hw', ha⟩ := request_false (r := r) s op c fill
        have he : (s.allocated ++ [r]).erase r = s.allocated := by
          rw [List.erase_append_right _ hr, List.erase_cons_head, List.append_nil]
        refine ⟨?_, ?_, ?_, fun w hx => ?_⟩
        · rw [hh, hm]
          exact h.nodup
        · rw [hh, hm, ha, he]
          exact h.allocated
        · rw [ha, he]
          exact h.allocated_nodup
        · rw [hw', hw] at hx
          cases hx
      | true =>
        obtain ⟨hh, hm, hw', ha⟩ := request_true (r := r) s op c fill
        refine h.pass (h.fresh hr) ?_ hh hm ?_ ?_ ?_
        · rw [ha]
          exact List.mem_append_right _ (List.mem_singleton_self r)
        · intro w hx
          rw [hw'] at hx
          cases hx
          rfl
        · intro a hx
          rw [ha]
          exact List.mem_append_left _ hx
        · rw [ha]
          exact nodup_concat h.allocated_nodup hr
  | wake =>
    obtain ⟨w, hw, ha, hh, hm, hn, hall⟩ := wake_some hs
    obtain ⟨hp, hcons⟩ := msgs_of_head h hw (hf w hw ha)
    rw [hp, if_pos rfl] at hm
    have hnot : w.req ∉ s.held ++ s.msgs.tail := by
      have hd := h.nodup
      rw [← hcons, List.perm_middle.nodup_iff] at hd
      exact (List.nodup_cons.1 hd).1
    refine h.freed (hm ▸ hnot) ?_ hh hn hall
    rw [hm]
    exact List.tail_sublist _
  | alloc c mem =>
    obtain ⟨hw, rfl⟩ := isNone_of_step hs
    cases mem with
    | none => exact h
    | some r => exact h.alloc hw (hl r rfl) rfl rfl rfl rfl
  | send r type server =>
    obtain ⟨hw, rfl⟩ := isNone_of_step hs
    obtain ⟨hin, hnh, hnm⟩ := hl
    cases server with
    | false => exact ⟨h.nodup, h.allocated, h.allocated_nodup, h.waiting⟩
    | true =>
      refine h.pass (fun hm => (List.mem_append.1 hm).elim hnh hnm) hin rfl rfl (fun w hx => ?_) (fun _ hx => hx)
        h.allocated_nodup
      rw [show s.waiting = some w from hx] at hw
      cases hw
  | getMsg =>
    obtain ⟨hw, rfl⟩ := isNone_of_step hs
    have hsub : (s.held ++ s.msgs.tail).Sublist (s.held ++ s.msgs) := (List.tail_sublist _).append_left _
    refine ⟨h.nodup.sublist hsub, fun a ha => h.allocated a (hsub.subset ha), h.allocated_nodup, fun w hx => ?_⟩
    rw [show s.waiting = some w from hx] at hw
    cases hw
  | clear =>
    obtain ⟨hw, rfl⟩ := isNone_of_step hs
    exact h.signals false false (.inl hw)
  | free r =>
    obtain ⟨hw, rfl⟩ := isNone_of_step hs
    obtain ⟨-, hnh, hnm⟩ := hl
    exact h.freed (fun hm => (List.mem_append.1 hm).elim hnh hnm) (List.Sublist.refl _) rfl hw rfl
  | reply r state connId =>
    cases hs
    exact h.reply hl state connId
  | signal =>
    cases hs
    exact h.signals true s.breakSig (.inr fun _ => rfl)
  | ctrlC =>
    cases hs
    exact h.signals s.portSig true (.inr id)

/-! ## The step that frees -/

/-- **One step frees its request properly** if and only if it finds the reply first. -/
theorem freesDone_iff (h : InOrder s) (hl : Legal s e) : FreesDone s e ↔ ReplyFirst s e := by
  cases e with
  | call op c mem server =>
    refine iff_of_true ?_ trivial
    intro s' hs r hr
    obtain ⟨hw, fill, rfl⟩ := call_some hs
    cases server with
    | true => cases hr
    | false =>
      cases mem with
      | none => cases hr
      | some r =>
        cases hr
        exact ⟨fun hh => hl r rfl (h.allocated r (List.mem_append_left _ hh)), .inl rfl⟩
  | wake =>
    constructor
    · intro hd w hw ha
      obtain ⟨s', hs⟩ := wake_of_awake hw ha
      obtain ⟨hnh, hm⟩ := hd s' hs w.req (by rw [freedBy, show s.waiting = some w from hw]; rfl)
      obtain ⟨w', hw', -, hh, hms, -⟩ := wake_some hs
      obtain hheld | ⟨hmem, hp⟩ := h.waiting w hw
      · exact absurd (hh ▸ hheld) hnh
      · rw [hp, if_pos rfl] at hms
        rw [hms] at hm
        cases hl : s.msgs with
        | nil =>
          rw [hl] at hmem
          cases hmem
        | cons m ms =>
          rw [hl] at hm
          obtain hm | hm := hm
          · exact absurd (congrArg List.length hm) (by simp)
          · rw [← (List.cons.inj hm).1]
            rfl
    · intro hf s' hs r hr
      obtain ⟨w, hw, ha, hh, hm, -⟩ := wake_some hs
      rw [freedBy, hw] at hr
      cases hr
      have hhead := hf w hw ha
      obtain ⟨hp, hcons⟩ := msgs_of_head h hw hhead
      rw [hp, if_pos rfl] at hm
      rw [hh, hm]
      exact ⟨h.not_held (List.mem_of_mem_head? hhead), .inr hcons⟩
  | _ => exact iff_of_true (fun s' _ r hr => by cases hr) trivial

/-- **What a call frees.** In a run of the client, every call frees a request that the server is done with, and takes no
other message from the port, if and only if every call that wakes up finds the reply first on the port. -/
theorem frees_done (conns : Nat → Connection) (reqs : Nat → Request) {es : List Event}
    (hl : Along Legal step (start conns reqs) es) :
    Along FreesDone step (start conns reqs) es ↔ Along ReplyFirst step (start conns reqs) es :=
  along_iff InOrder (fun _ _ h hl => freesDone_iff h hl) (fun _ _ _ h hl hf hs => h.step hl hf hs)
    (inOrder_start conns reqs) hl

/-- A client before its first call. -/
def fresh : State := start (fun _ => ⟨5, 1, 0⟩) fun c => ⟨0, 0, 0, 0, 0, c⟩

/-- The user presses Ctrl-C before the server has replied. -/
def impatient : List Event := [.call .open 1 (some 500) true, .ctrlC, .wake]

/-- The request is freed while the server has it. -/
theorem impatient_frees_held : Along Legal step fresh impatient ∧ ¬Along FreesDone step fresh impatient := by
  constructor
  · decide +kernel
  · rintro ⟨-, h⟩
    obtain ⟨-, h⟩ := h _ rfl
    obtain ⟨h, -⟩ := h _ rfl
    exact (h _ rfl 500 rfl).1 (List.mem_singleton_self 500)

/-- The reply comes together with Ctrl-C, and the connection is closed afterwards. -/
def patient : List Event :=
  [.call .open 1 (some 500) true, .reply 500 rsOk 3, .ctrlC, .wake, .call .close 1 (some 500) true, .reply 500 rsOk 3,
    .wake]

theorem patient_frees_done : Along FreesDone step fresh patient :=
  (frees_done (fun _ => ⟨5, 1, 0⟩) (fun c => ⟨0, 0, 0, 0, 0, c⟩) (by decide +kernel)).2
    (by decide +kernel)

end AmiPiBorg.Client
