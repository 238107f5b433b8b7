import AmiPiBorg.Server.Link

/-!
# The failures of a session

`Budget` keeps account of a run: the pings that timed out since the hello that began the session or the last pong, and
the attempts to connect that failed since the server was connected. The counters of the server are not set back when a
session begins, so the link can be given up after one ping that is lost (`budget_not_full`). In runs in which every
session begins with full counters, it is given up only after `MAX_MISSED_PINGS` and the server stops only after five
attempts (`full_budget`).
-/

set_option autoImplicit false

namespace AmiPiBorg.Server

open ProgLib

variable {env : Env} {s s' t : Server} {c : Connection} {ip : InPac} {req : Request} {e : Event} {es : List Event}

/-! ## What leaves the attempts alone -/

@[simp] theorem send_retryCount (env : Env) (s : Server) (length : Nat) (o : OutPac) :
    (s.send env length o).1.retryCount = s.retryCount := by
  unfold send
  split <;> rfl

@[simp] theorem put_retryCount (s : Server) (c : Connection) : (s.put c).retryCount = s.retryCount := rfl

@[simp] theorem reply_retryCount (s : Server) (r : Request) : (s.reply r).retryCount = s.retryCount := rfl

@[simp] theorem release_retryCount (s : Server) (ip : InPac) : (s.release ip).retryCount = s.retryCount := rfl

@[simp] theorem cnnConnect_retryCount (env : Env) (s : Server) (c : Connection) :
    (s.cnnConnect env c).1.retryCount = s.retryCount := by simp [cnnConnect]

@[simp] theorem cnnDisconnect_retryCount (env : Env) (s : Server) (c : Connection) :
    (s.cnnDisconnect env c).1.retryCount = s.retryCount := by simp [cnnDisconnect]

@[simp] theorem destroyConnection_retryCount (env : Env) (s : Server) (c : Connection) :
    (s.destroyConnection env c).retryCount = s.retryCount := by
  unfold destroyConnection
  dsimp only
  split <;> simp

@[simp] theorem pushToClient_retryCount (s : Server) (c : Connection) :
    (s.pushToClient c).1.retryCount = s.retryCount := by
  unfold pushToClient
  split <;> rfl

@[simp] theorem replyRequest_retryCount (s : Server) (c : Connection) (type : UInt16) (state : RequestState) :
    (s.replyRequest c type state).1.retryCount = s.retryCount := by
  unfold replyRequest
  split <;> rfl

@[simp] theorem handleConnectionPacket_retryCount (env : Env) (s : Server) (c : Connection) (ip : InPac) :
    (s.handleConnectionPacket env c ip).retryCount = s.retryCount := by
  unfold handleConnectionPacket
  dsimp only
  repeat' split
  all_goals simp

@[simp] theorem handleClientRequest_retryCount (env : Env) (s : Server) (c : Connection) (req : Request) :
    (s.handleClientRequest env c req).retryCount = s.retryCount := by
  obtain ⟨r, -, ⟨-, h⟩ | ⟨-, h⟩ | ⟨-, h⟩ | ⟨-, -, -, -, h⟩ | h⟩ := handleClientRequest_cases env s c req
  · simp [h]
  · rw [h]
    split <;> simp
  · simp [h]
  · simp [h]
  · simp [h]

@[simp] theorem sendPing_retryCount (env : Env) (s : Server) : (s.sendPing env).retryCount = s.retryCount := by
  unfold sendPing
  dsimp only
  split <;> simp

theorem noteId_retryCount (env : Env) (s : Server) (ip : InPac) : (s.noteId env ip).retryCount = s.retryCount := by
  obtain ⟨m, os, last, h⟩ := noteId_eq env s ip
  rw [h]

theorem handleControlPacket_retryCount (env : Env) (s : Server) (ip : InPac) :
    (s.handleControlPacket env ip).retryCount = s.retryCount := by
  unfold handleControlPacket
  dsimp only
  repeat' split
  all_goals simp

theorem handlePacket_retryCount (env : Env) (s : Server) (ip : InPac) :
    (s.handlePacket env ip).retryCount = s.retryCount := by
  have hn : ((s.hear ip).noteId env ip).retryCount = s.retryCount := noteId_retryCount env (s.hear ip) ip
  rw [handlePacket_eq, ← hn]
  generalize (s.hear ip).noteId env ip = t
  unfold dispatch
  split
  · exact handleControlPacket_retryCount env t ip
  · split
    · simp [sendError]
    · simp

theorem receiveRequest_retryCount (h : s.receiveRequest env req = some s') : s'.retryCount = s.retryCount := by
  obtain ⟨r, -, ⟨t, rfl | rfl, rfl⟩ | ⟨c, -, rfl, -⟩ | ⟨-, -, state, -, rfl, -⟩⟩ := receiveRequest_cases h
  · rfl
  · rfl
  · simp
  · rw [handleClientRequest_retryCount]
    rfl

theorem checkRequestTimeouts_retryCount (s : Server) : s.checkRequestTimeouts.retryCount = s.retryCount := by
  unfold checkRequestTimeouts
  generalize s.connections = l
  induction l generalizing s with
  | nil => rfl
  | cons c l ih => exact (ih _).trans rfl

theorem checkPing_retryCount (s : Server) : s.checkPing.retryCount = s.retryCount := by
  unfold checkPing
  dsimp only
  repeat' split
  all_goals rfl

theorem nextPing_retryCount (env : Env) (s : Server) : (s.nextPing env).retryCount = s.retryCount := by
  unfold nextPing
  repeat' split
  all_goals simp

theorem handleTimer_retryCount (env : Env) (s : Server) : (s.handleTimer env).retryCount = s.retryCount := by
  unfold handleTimer
  dsimp only
  split
  · rfl
  · rw [checkRequestTimeouts_retryCount, nextPing_retryCount, checkPing_retryCount]
  · rfl
  · rfl

/-! ## The account of a run -/

/-- What has failed in a session. -/
structure Budget where
  /-- The pings that timed out since the hello that began the session, or the last pong. -/
  misses : Nat
  /-- The attempts to connect that failed since the server was connected. -/
  failures : Nat

/-- What an event adds to the account. -/
def Budget.upd (s : Server) (e : Event) (g : Budget) : Budget :=
  match e with
  | .packet _ pac =>
    if pac.connId ≠ defaultConnection then g
    else if pac.type = ptHello ∧ s.state ≠ .connected then ⟨0, 0⟩
    else if pac.type = ptPong then { g with misses := 0 }
    else g
  | .timer fired =>
    if fired = false then g
    else if s.state = .connected ∧ s.pingTimeoutTicks = 1 then { g with misses := g.misses + 1 }
    else if s.state = .waitForConnect then { g with failures := g.failures + 1 }
    else g
  | _ => g

/-- The account of a run from the start. -/
def budget (env : Env) (es : List Event) : Budget := noted Budget.upd (step env) ⟨0, 0⟩ start es

/-- A session begins with full counters. -/
def FreshSession (s : Server) : Event → Prop
  | .packet _ pac => pac.connId = defaultConnection → pac.type = ptHello → s.state ≠ .connected →
      s.missedPingCount = 0 ∧ s.retryCount = 5
  | _ => True

instance (s : Server) : (e : Event) → Decidable (FreshSession s e)
  | .run _ => .isTrue trivial
  | .wake _ => .isTrue trivial
  | .timer _ => .isTrue trivial
  | .request _ => .isTrue trivial
  | .requestsDone => .isTrue trivial
  | .packet .. => by
    unfold FreshSession
    infer_instance
  | .packetsDone => .isTrue trivial

/-- The counters are no further than the account. -/
structure Budgeted (s : Server) (g : Budget) : Prop where
  missed : s.state = .connected → s.missedPingCount ≤ g.misses
  bound : s.retryCount < 65536
  retry : 5 ≤ s.retryCount + g.failures
  failed : s.state = .connectFailed → 6 ≤ s.retryCount + g.failures

/-- What a control packet does to the state and the counter of the pings. -/
theorem handleControlPacket_missed (env : Env) (s : Server) (ip : InPac) :
    ip.pac.type = ptHello ∧ (s.handleControlPacket env ip).state = .connected ∧
        (s.handleControlPacket env ip).missedPingCount = s.missedPingCount ∨
      ip.pac.type = ptPong ∧ (s.handleControlPacket env ip).state = s.state ∧
        (s.handleControlPacket env ip).missedPingCount = 0 ∨
      ip.pac.type ≠ ptHello ∧ ip.pac.type ≠ ptPong ∧
        ((s.handleControlPacket env ip).state = s.state ∨ (s.handleControlPacket env ip).state = .disconnected) ∧
        (s.handleControlPacket env ip).missedPingCount = s.missedPingCount := by
  unfold handleControlPacket
  dsimp only
  by_cases h₁ : ip.pac.type = ptHello
  · rw [if_pos h₁]
    rcases sendPing_steady env { s with state := .connected } with h | h
    · exact .inl ⟨h₁, h.state, h.missedPingCount⟩
    · exact .inl ⟨h₁, h.state, h.missedPingCount⟩
  rw [if_neg h₁]
  by_cases h₂ : ip.pac.type = ptGoodbye
  · rw [if_pos h₂]
    refine .inr (.inr ⟨h₁, fun h => ?_, .inr rfl, rfl⟩)
    exact absurd (h₂.symm.trans h) (by decide)
  rw [if_neg h₂]
  by_cases h₃ : ip.pac.type = ptPong
  · rw [if_pos h₃]
    exact .inr (.inl ⟨h₃, rfl, rfl⟩)
  · rw [if_neg h₃]
    exact .inr (.inr ⟨h₁, h₃, .inl rfl, rfl⟩)

/-- The link is given up, and the server stops, only when enough has failed. -/
structure OnBudget (s s' : Server) (g : Budget) : Prop where
  lost : s.state ≠ .connectionLost → s'.state = .connectionLost → maxMissedPings < g.misses
  stopped : s.state = .connectFailed → s'.state = .stopping → 5 ≤ g.failures

theorem OnBudget.of_state {g : Budget} (h : s'.state = s.state ∨ s'.state = .disconnected ∨ s'.state = .connected) :
    OnBudget s s' g := by
  constructor
  · intro hn hl
    rcases h with h | h | h
    · exact absurd (h.symm.trans hl) hn
    · cases h.symm.trans hl
    · cases h.symm.trans hl
  · intro hf hs
    rcases h with h | h | h
    · cases (hf.symm.trans h.symm).trans hs
    · cases h.symm.trans hs
    · cases h.symm.trans hs

theorem Budgeted.of_le {g g' : Budget} (h : Budgeted s g) (hs : s'.state = s.state ∨ s'.state = .disconnected)
    (hm : s'.missedPingCount = s.missedPingCount) (hr : s'.retryCount = s.retryCount) (hg : g' = g) :
    Budgeted s' g' := by
  subst hg
  constructor
  · intro hc
    rw [hm]
    rcases hs with hs | hs
    · exact h.missed (hs.symm.trans hc)
    · cases hs.symm.trans hc
  · rw [hr]
    exact h.bound
  · rw [hr]
    exact h.retry
  · intro hc
    rw [hr]
    rcases hs with hs | hs
    · exact h.failed (hs.symm.trans hc)
    · cases hs.symm.trans hc

/-- A packet keeps the account. -/
theorem Budgeted.packet {g : Budget} (h : Budgeted s g) {seq : Nat} {pac : Incoming}
    (hf : s.FreshSession (.packet seq pac)) (he : step env s (.packet seq pac) = some s') :
    Budgeted s' (Budget.upd s (.packet seq pac) g) ∧
      (s'.state = s.state ∨ s'.state = .disconnected ∨ s'.state = .connected) := by
  obtain rfl : Server.handlePacket env { s with dequeued := s.dequeued + 1 } ⟨s.dequeued, seq, pac⟩ = s' :=
    Option.some.inj he
  have hsteady := handlePacket_steady env { s with dequeued := s.dequeued + 1 } ⟨s.dequeued, seq, pac⟩
  have hr : (Server.handlePacket env { s with dequeued := s.dequeued + 1 } ⟨s.dequeued, seq, pac⟩).retryCount =
      s.retryCount := handlePacket_retryCount env _ _
  generalize Server.handlePacket env { s with dequeued := s.dequeued + 1 } ⟨s.dequeued, seq, pac⟩ = s' at hsteady hr ⊢
  rcases hsteady with ⟨h₀, t, ht, hp⟩ | ⟨h₀, hp⟩
  · have hd : ¬pac.connId ≠ defaultConnection := fun hn => hn h₀
    have hst : t.state = s.state := ht.state
    have hmt : t.missedPingCount = s.missedPingCount := ht.missedPingCount
    unfold Budget.upd
    dsimp only
    rw [if_neg hd]
    rcases handleControlPacket_missed env t ⟨s.dequeued, seq, pac⟩ with ⟨h₁, h₂, h₃⟩ | ⟨h₁, h₂, h₃⟩ | ⟨h₁, h₁', h₂, h₃⟩
    · rw [← hp] at h₂ h₃
      have hnf : s'.state ≠ .connectFailed := by
        rw [h₂]
        exact fun h => by cases h
      refine ⟨?_, .inr (.inr h₂)⟩
      by_cases hc : s.state = .connected
      · rw [if_neg fun hn => hn.2 hc, if_neg (by rw [h₁]; decide)]
        refine ⟨fun _ => ?_, hr ▸ h.bound, hr ▸ h.retry, fun hn => absurd hn hnf⟩
        rw [h₃, hmt]
        exact h.missed hc
      · obtain ⟨hm, hret⟩ := hf h₀ h₁ hc
        rw [if_pos ⟨h₁, hc⟩]
        refine ⟨fun _ => ?_, hr ▸ h.bound, ?_, fun hn => absurd hn hnf⟩
        · rw [h₃, hmt, hm]
        · rw [hr, hret]
          exact Nat.le_refl 5
    · rw [← hp] at h₂ h₃
      rw [if_neg (fun hn => absurd (h₁.symm.trans hn.1) (by decide)), if_pos h₁]
      refine ⟨⟨fun _ => ?_, hr ▸ h.bound, hr ▸ h.retry, fun hn => ?_⟩, .inl (h₂.trans hst)⟩
      · exact Nat.le_of_eq h₃
      · rw [hr]
        exact h.failed (hst.symm.trans (h₂.symm.trans hn))
    · rw [← hp] at h₂ h₃
      rw [if_neg (fun hn => h₁ hn.1), if_neg h₁']
      have hs := h₂.imp_left fun h => h.trans hst
      exact ⟨h.of_le hs (h₃.trans hmt) hr rfl, hs.imp_right .inl⟩
  · refine ⟨h.of_le (.inl hp.state) hp.missedPingCount hr ?_, .inl hp.state⟩
    unfold Budget.upd
    exact if_pos h₀

/-- What an iteration of the loop of `APB_Run` does to the counters. -/
theorem runStep_retry (env : Env) (s : Server) (ok : Bool) :
    (s.runStep env ok).state ≠ .connectFailed ∧ (s.runStep env ok).state ≠ .connectionLost ∧
      (s.runStep env ok).missedPingCount = s.missedPingCount ∧
      (s.state ≠ .connectFailed ∧ ((s.runStep env ok).retryCount = 5 ∨ (s.runStep env ok).retryCount = s.retryCount) ∨
        s.state = .connectFailed ∧ (s.runStep env ok).retryCount = (s.retryCount + 65535) % 65536 ∧
          ((s.runStep env ok).state = .stopping → (s.runStep env ok).retryCount = 0)) := by
  cases hs : s.state with
  | connecting =>
    obtain ⟨o, state, phase, -, -, he, hst⟩ := sendInit_eq env s
    have h := steady_send env s 18 o
    rw [runStep, hs]
    dsimp only
    rw [he]
    rcases hst with rfl | rfl <;> simp [h.missedPingCount]
  | disconnecting =>
    obtain ⟨o, state, phase, -, -, he, hst⟩ := sendShutdown_eq env s
    have h := steady_send env s sizeofPacket o
    rw [runStep, hs]
    dsimp only
    rw [he]
    rcases hst with rfl | rfl <;> simp [hs, h.missedPingCount]
  | openingRemote => cases ok <;> simp [runStep, hs]
  | openingClient => cases ok <;> simp [runStep, hs]
  | connectFailed =>
    simp only [runStep, hs]
    split <;> simp_all
  | _ => simp [runStep, hs]

/-- What a tick does to the state and the counter of the pings. -/
theorem handleTimer_missed (env : Env) (s : Server) :
    s.state = .waitForConnect ∧ (s.handleTimer env).state = .connectFailed ∧
        (s.handleTimer env).missedPingCount = s.missedPingCount ∨
      s.state = .connected ∧ s.pingTimeoutTicks = 1 ∧
        (s.handleTimer env).missedPingCount = (s.missedPingCount + 1) % 65536 ∧
        (s.handleTimer env).state =
          (if maxMissedPings < (s.missedPingCount + 1) % 65536 then .connectionLost else .connected) ∨
      s.state ≠ .waitForConnect ∧ ¬(s.state = .connected ∧ s.pingTimeoutTicks = 1) ∧
        ((s.handleTimer env).state = s.state ∨ (s.handleTimer env).state = .disconnected) ∧
        (s.handleTimer env).missedPingCount = s.missedPingCount := by
  cases hs : s.state with
  | connected =>
    obtain ⟨h₁, -, -, h₄⟩ := handleTimer_connected env hs
    rw [h₁, h₄]
    unfold checkPing
    by_cases h : s.pingTimeoutTicks = 1
    · rw [if_pos h]
      refine .inr (.inl ⟨rfl, h, ?_⟩)
      dsimp only
      split <;> simp [hs]
    · rw [if_neg h]
      refine .inr (.inr ⟨by simp, fun hn => h hn.2, ?_⟩)
      split <;> simp [hs]
  | _ => simp [handleTimer, hs]

/-- **A step keeps the account**, and gives up only when enough has failed. -/
theorem Budgeted.step {g : Budget} (h : Budgeted s g) (hf : s.FreshSession e) (he : Server.step env s e = some s') :
    Budgeted s' (Budget.upd s e g) ∧ OnBudget s s' (Budget.upd s e g) := by
  cases e with
  | run ok =>
    cases he
    obtain ⟨h₁, h₂, h₃, h₄⟩ := runStep_retry env s ok
    have hc := (runStep_counters env s ok).1
    have hb := h.bound
    have hr := h.retry
    refine ⟨⟨fun hs => ?_, ?_, ?_, fun hs => absurd hs h₁⟩, fun _ hs => absurd hs h₂, fun hs hstop => ?_⟩
    · rw [h₃]
      exact h.missed (hc hs)
    · rcases h₄ with ⟨-, h₄ | h₄⟩ | ⟨-, h₄, -⟩ <;> omega
    · show 5 ≤ (s.runStep env ok).retryCount + g.failures
      rcases h₄ with ⟨-, h₄ | h₄⟩ | ⟨hs, h₄, -⟩
      · omega
      · omega
      · have := h.failed hs
        omega
    · show 5 ≤ g.failures
      rcases h₄ with ⟨hn, -⟩ | ⟨-, h₄, h₅⟩
      · exact absurd hs hn
      · have := h.failed hs
        have := h₅ hstop
        omega
  | wake brk =>
    cases he
    split
    · exact ⟨h.of_le (.inr rfl) rfl rfl rfl, .of_state (.inr (.inl rfl))⟩
    · exact ⟨h.of_le (.inl rfl) rfl rfl rfl, .of_state (.inl rfl)⟩
  | timer fired =>
    cases he
    cases fired with
    | false => exact ⟨h.of_le (.inl rfl) rfl rfl rfl, .of_state (.inl rfl)⟩
    | true =>
      have hr := handleTimer_retryCount env s
      have hu : Budget.upd s (.timer true) g =
          if s.state = .connected ∧ s.pingTimeoutTicks = 1 then { g with misses := g.misses + 1 }
          else if s.state = .waitForConnect then { g with failures := g.failures + 1 } else g := rfl
      rw [hu, if_pos rfl]
      rcases handleTimer_missed env s with ⟨h₁, h₂, h₃⟩ | ⟨h₁, h₂, h₃, h₄⟩ | ⟨h₁, h₂, h₃, h₄⟩
      · -- an attempt fails
        have hn : ¬(s.state = .connected ∧ s.pingTimeoutTicks = 1) := fun hn => by cases h₁.symm.trans hn.1
        rw [if_neg hn, if_pos h₁]
        refine ⟨⟨fun hs => ?_, ?_, ?_, fun _ => ?_⟩, fun _ hs => ?_, fun hs => ?_⟩
        · cases h₂.symm.trans hs
        · exact hr ▸ h.bound
        · have := h.retry
          show 5 ≤ (s.handleTimer env).retryCount + (g.failures + 1)
          omega
        · have := h.retry
          show 6 ≤ (s.handleTimer env).retryCount + (g.failures + 1)
          omega
        · cases h₂.symm.trans hs
        · cases h₁.symm.trans hs
      · -- a ping is not answered
        have hm := h.missed h₁
        rw [if_pos ⟨h₁, h₂⟩]
        refine ⟨⟨fun _ => ?_, hr ▸ h.bound, hr ▸ h.retry, fun hs => ?_⟩, fun _ hs => ?_, fun hs => ?_⟩
        · show (s.handleTimer env).missedPingCount ≤ g.misses + 1
          omega
        · have hs : (s.handleTimer env).state = .connectFailed := hs
          rw [h₄] at hs
          split at hs <;> cases hs
        · have hs : (s.handleTimer env).state = .connectionLost := hs
          rw [h₄] at hs
          split at hs
          · show maxMissedPings < g.misses + 1
            omega
          · cases hs
        · cases h₁.symm.trans hs
      · rw [if_neg h₂, if_neg h₁]
        exact ⟨h.of_le h₃ h₄ hr rfl, .of_state (h₃.imp_right .inl)⟩
  | request req =>
    have hr : s'.retryCount = s.retryCount := by
      have h' := receiveRequest_retryCount he
      exact h'
    rcases receiveRequest_steady he with hs | hs
    · exact ⟨h.of_le (.inl hs.state) hs.missedPingCount hr rfl, .of_state (.inl hs.state)⟩
    · exact ⟨h.of_le (.inr hs.state) hs.missedPingCount hr rfl, .of_state (.inr (.inl hs.state))⟩
  | requestsDone =>
    cases he
    exact ⟨h.of_le (.inl rfl) rfl rfl rfl, .of_state (.inl rfl)⟩
  | packet seq pac =>
    obtain ⟨hb, hs⟩ := h.packet hf he
    exact ⟨hb, .of_state hs⟩
  | packetsDone =>
    cases he
    exact ⟨h.of_le (.inl rfl) rfl rfl rfl, .of_state (.inl rfl)⟩

/-- **Every session has its full budget of failures**, in every run in which every session begins with full counters: the
link is given up only after more than `MAX_MISSED_PINGS` pings that timed out in the session, with no pong since, and
the server stops for want of a connection only after five attempts that failed, with no connection between them. -/
theorem full_budget (env : Env) {es : List Event} {e : Event} {x x' : Server}
    (h : Along FreshSession (step env) start (es ++ [e])) (hx : runs (step env) start es = some x)
    (he : step env x e = some x') : OnBudget x x' (budget env (es ++ [e])) := by
  have hstart : Budgeted start ⟨0, 0⟩ :=
    ⟨fun h => (by cases h), by decide, by decide, fun h => by cases h⟩
  obtain ⟨hes, hlast⟩ := along_append.1 h
  have hI : Budgeted x (budget env es) :=
    noted_inv Budgeted (fun s e s' g hI hf he => (hI.step hf he).1) hstart hes hx
  unfold budget
  rw [noted_append hx, noted_cons he]
  exact (hI.step (hlast x hx).1 he).2

/-! ### Counters that are not set back -/

/-- The timer fires so many times. -/
def ticks (n : Nat) : List Event := (List.replicate n tick).flatten

/-- A session with six pings that are not answered. Between them comes a packet of another kind, for without one there
is no next ping. -/
def unansweredSession (seq : Nat) : List Event :=
  pass [] [bare seq ptHello 0] ++ ticks 5 ++
    (List.range 5).flatMap fun i => pass [] [bare (seq + 1 + i) ptResend 0] ++ ticks 10

/-- The link is given up, the Pi says hello again, and its first ping is late. -/
def lostAgain : List Event :=
  [.run true, .run true, .run true] ++ unansweredSession 1 ++ [.run true] ++ pass [] [bare 7 ptHello 0] ++ ticks 4 ++
    [.run true, .wake false]

/-- An attempt to connect that fails. -/
def attempt : List Event := tick ++ [.run true]

/-- One attempt fails, the next begins a session that is given up, and four more fail. -/
def fourAttempts : List Event :=
  [.run true, .run true, .run true] ++ attempt ++ unansweredSession 1 ++ [.run true] ++ attempt ++ attempt ++ attempt ++
    tick

theorem budget_not_full :
    (Along Enabled (step plenty) start (lostAgain ++ [.timer true]) ∧ ∃ x x' : Server,
      runs (step plenty) start lostAgain = some x ∧ step plenty x (.timer true) = some x' ∧
        x.state = .connected ∧ x'.state = .connectionLost ∧ (budget plenty (lostAgain ++ [.timer true])).misses = 1) ∧
    Along Enabled (step plenty) start (fourAttempts ++ [.run true]) ∧ ∃ x x' : Server,
      runs (step plenty) start fourAttempts = some x ∧ step plenty x (.run true) = some x' ∧
        x.state = .connectFailed ∧ x'.state = .stopping ∧ (budget plenty (fourAttempts ++ [.run true])).failures = 4 := by
  have h₁ : (runs (step plenty) start lostAgain).map (fun x =>
      (x.state, (step plenty x (.timer true)).map Server.state)) = some (.connected, some .connectionLost) := by
    decide +kernel
  have h₂ : (runs (step plenty) start fourAttempts).map (fun x =>
      (x.state, (step plenty x (.run true)).map Server.state)) = some (.connectFailed, some .stopping) := by
    decide +kernel
  obtain ⟨x, hx, he⟩ := Option.map_eq_some_iff.1 h₁
  obtain ⟨y, hy, hf⟩ := Option.map_eq_some_iff.1 h₂
  rw [Prod.mk.injEq] at he hf
  obtain ⟨x', hx', hl⟩ := Option.map_eq_some_iff.1 he.2
  obtain ⟨y', hy', hs⟩ := Option.map_eq_some_iff.1 hf.2
  exact ⟨⟨by decide +kernel, x, x', hx, hx', he.1, hl, by decide +kernel⟩,
    by decide +kernel, y, y', hy, hy', hf.1, hs, by decide +kernel⟩

/-- A session, up to the tick that finds the sixth ping not answered. -/
def sixthPing : List Event :=
  [.run true, .run true, .run true] ++ pass [] [bare 1 ptHello 0] ++ ticks 5 ++
    ((List.range 4).flatMap fun i => pass [] [bare (2 + i) ptResend 0] ++ ticks 10) ++ pass [] [bare 6 ptResend 0] ++
    ticks 9 ++ [.run true, .wake false]

/-- The session is given up, and five attempts to connect again fail. -/
def fiveAttempts : List Event :=
  sixthPing ++ [.timer true, .requestsDone, .packetsDone, .run true] ++ attempt ++ attempt ++ attempt ++
    attempt ++ tick

theorem full_budget_session :
    (∃ x x' : Server, runs (step plenty) start sixthPing = some x ∧ step plenty x (.timer true) = some x' ∧
      x'.state = .connectionLost ∧ maxMissedPings < (budget plenty (sixthPing ++ [.timer true])).misses) ∧
    ∃ y y' : Server, runs (step plenty) start fiveAttempts = some y ∧ step plenty y (.run true) = some y' ∧
      y'.state = .stopping ∧ 5 ≤ (budget plenty (fiveAttempts ++ [.run true])).failures := by
  have h₁ : (runs (step plenty) start sixthPing).map (fun x =>
      (x.state, (step plenty x (.timer true)).map Server.state)) = some (.connected, some .connectionLost) := by
    decide +kernel
  have h₂ : (runs (step plenty) start fiveAttempts).map (fun x =>
      (x.state, (step plenty x (.run true)).map Server.state)) = some (.connectFailed, some .stopping) := by
    decide +kernel
  obtain ⟨x, hx, he⟩ := Option.map_eq_some_iff.1 h₁
  obtain ⟨y, hy, hf⟩ := Option.map_eq_some_iff.1 h₂
  rw [Prod.mk.injEq] at he hf
  obtain ⟨x', hx', hl⟩ := Option.map_eq_some_iff.1 he.2
  obtain ⟨y', hy', hs⟩ := Option.map_eq_some_iff.1 hf.2
  have hlost := (full_budget plenty (by decide +kernel) hx hx').lost (by rw [he.1]; decide) hl
  have hstopped := (full_budget plenty (by decide +kernel) hy hy').stopped hf.1 hs
  exact ⟨⟨x, x', hx, hx', hl, hlost⟩, y, y', hy, hy', hs, hstopped⟩

end AmiPiBorg.Server
