import AmiPiBorg.Server.Sessions

/-!
# The stages of a run

The server opens its devices, then it connects and serves, and then it closes its devices, in this order and once
(`runStep_after`, `Waiting.step`). The attempts to connect are counted down from five over the whole run, also where
some of them succeed. So there is one call of `APB_SendInit` for each time that the link was given up, and five more at
most (`attempts_bounded`).
-/

set_option autoImplicit false

namespace AmiPiBorg

open ProgLib

/-- Where a server is on its way. -/
inductive ServerState.Stage where
  /-- The remote is not open yet. -/
  | closed
  /-- Up to the first attempt to connect. -/
  | opening
  | serving
  /-- On the way to `SS_STOPPED`. -/
  | closing
  | stopped
  deriving DecidableEq

def ServerState.stage : ServerState → ServerState.Stage
  | .starting | .openingRemote => .closed
  | .openingClient => .opening
  | .stopping | .closingClient | .closingRemote => .closing
  | .stopped => .stopped
  | _ => .serving

namespace Server

variable {env : Env} {s s' : Server} {ip : InPac} {e : Event} {es : List Event}

/-! ## What a step does to the state -/

/-- A packet leaves the state as it is, or the server is connected or disconnected after it. -/
theorem handlePacket_state (env : Env) (s : Server) (ip : InPac) : (s.handlePacket env ip).phase = s.phase ∧
    ((s.handlePacket env ip).state = s.state ∨ (s.handlePacket env ip).state = .disconnected ∨
      (s.handlePacket env ip).state = .connected) := by
  rcases handlePacket_steady env s ip with ⟨-, t, ht, hp⟩ | ⟨-, hp⟩
  · rw [hp, ← show t.phase = s.phase from ht.phase, ← show t.state = s.state from ht.state]
    rcases handleControlPacket_steady env t ip with ⟨-, h | h⟩ | ⟨-, h | h | h⟩
    · exact ⟨h.phase, .inr (.inr h.state)⟩
    · exact ⟨h.phase, .inr (.inr h.state)⟩
    · exact ⟨h.phase, .inr (.inl h.state)⟩
    · exact ⟨h.phase, .inl h.state⟩
    · exact ⟨h.phase, .inl h.state⟩
  · exact ⟨hp.phase, .inl hp.state⟩

/-- What waits is neither about to connect nor on its way from or to `SS_STOPPED`. -/
def Waiting (s : Server) : Prop := s.phase ≠ .loop → s.state.stage = .serving ∧ s.state ≠ .connecting

/-- **The parts of `APB_WaitForMessage`** keep to serving. -/
theorem Waiting.step (h : s.Waiting) (hen : s.Enabled e) (hp : s.phase ≠ .loop) (he : Server.step env s e = some s') :
    s'.state.stage = .serving ∧ s'.state ≠ .connecting := by
  have hs := h hp
  have hd : ServerState.disconnected.stage = .serving ∧ ServerState.disconnected ≠ .connecting := by decide
  cases e with
  | run ok => exact absurd hen.1 hp
  | wake brk =>
    cases he
    cases brk with
    | true => exact hd
    | false => exact hs
  | timer fired =>
    cases he
    cases fired with
    | false => exact hs
    | true =>
      show (s.handleTimer env).state.stage = .serving ∧ (s.handleTimer env).state ≠ .connecting
      rcases handleTimer_missed env s with ⟨-, ht, -⟩ | ⟨-, -, -, ht⟩ | ⟨-, -, ht | ht, -⟩
      · rw [ht]
        decide
      · rw [ht]
        split <;> decide
      · rw [ht]
        exact hs
      · rw [ht]
        exact hd
  | request req =>
    rcases receiveRequest_steady he with ht | ht
    · rw [ht.state]
      exact hs
    · rw [ht.state]
      exact hd
  | requestsDone =>
    cases he
    exact hs
  | packet seq pac =>
    cases he
    obtain ⟨-, ht | ht | ht⟩ := handlePacket_state env { s with dequeued := s.dequeued + 1 } ⟨s.dequeued, seq, pac⟩
    · rw [ht]
      exact hs
    · rw [ht]
      exact hd
    · rw [ht]
      decide
  | packetsDone =>
    cases he
    exact hs

/-- What comes after a state in the loop of `APB_Run`. -/
def After : ServerState → ServerState → Prop
  | .starting, t => t = .openingRemote
  | .openingRemote, t => t = .openingClient ∨ t = .stopping
  | .openingClient, t => t = .connecting ∨ t = .stopping
  | .connecting, t => t = .waitForConnect ∨ t = .stopping
  | .connectFailed, t => t = .connecting ∨ t = .stopping
  | .connectionLost, t => t = .connecting
  | .disconnecting, t => t = .disconnecting ∨ t = .stopping
  | .disconnected, t => t = .stopping
  | .stopping, t => t = .closingClient
  | .closingClient, t => t = .closingRemote
  | .closingRemote, t => t = .stopped
  | s, t => t = s

/-- Between the opening and the closing of the remote, the stages follow each other. -/
theorem After.stage {a b : ServerState} (h : After a b) (ho : a ≠ .openingRemote) (hc : a ≠ .closingRemote) :
    b.stage = a.stage ∨ b.stage = .closing ∨ a.stage = .opening ∧ b.stage = .serving := by
  cases a <;> grind [After, ServerState.stage]

/-- **An iteration of the loop of `APB_Run`**: what comes next, and whether the server waits then. -/
theorem runStep_after (env : Env) (s : Server) (ok : Bool) (hp : s.phase = .loop) :
    After s.state (s.runStep env ok).state ∧ (s.runStep env ok).Waiting := by
  have hloop : ∀ {t : Server}, t.phase = .loop → t.Waiting := fun ht hn => absurd ht hn
  cases hs : s.state with
  | openingRemote => cases ok <;> exact ⟨by simp [runStep, hs, After], hloop (by simpa [runStep, hs] using hp)⟩
  | openingClient => cases ok <;> exact ⟨by simp [runStep, hs, After], hloop (by simpa [runStep, hs] using hp)⟩
  | connecting =>
    have hst := fun o => steady_send env s 18 o
    simp only [runStep, hs, sendInit]
    split
    · exact ⟨.inl rfl, fun _ => by simp [ServerState.stage]⟩
    · exact ⟨.inr rfl, hloop ((hst _).phase.trans hp)⟩
  | disconnecting =>
    have hst := fun o => steady_send env s sizeofPacket o
    simp only [runStep, hs, sendShutdown]
    split
    · refine ⟨.inl ((hst _).state.trans hs), fun _ => ?_⟩
      simp [(hst _).state, hs, ServerState.stage]
    · exact ⟨.inr rfl, hloop ((hst _).phase.trans hp)⟩
  | connectFailed =>
    refine ⟨?_, hloop (by simpa [runStep, hs] using hp)⟩
    simp only [runStep, hs, After]
    split <;> simp
  | waitForConnect => exact ⟨by simp [runStep, hs, After], fun _ => by simp [runStep, hs, ServerState.stage]⟩
  | connected => exact ⟨by simp [runStep, hs, After], fun _ => by simp [runStep, hs, ServerState.stage]⟩
  | _ => exact ⟨by simp [runStep, hs, After], hloop (by simpa [runStep, hs] using hp)⟩

/-- The other events leave the attempts alone. -/
theorem step_retryCount (hen : s.Enabled e) (hp : s.phase ≠ .loop) (he : Server.step env s e = some s') :
    s'.retryCount = s.retryCount := by
  cases e with
  | run ok => exact absurd hen.1 hp
  | wake brk =>
    cases he
    cases brk <;> rfl
  | timer fired =>
    cases he
    cases fired with
    | false => rfl
    | true => exact handleTimer_retryCount env s
  | request req =>
    have h := receiveRequest_retryCount he
    exact h
  | requestsDone =>
    cases he
    rfl
  | packet seq pac =>
    cases he
    exact handlePacket_retryCount env _ _
  | packetsDone =>
    cases he
    rfl

/-! ## Attempts -/

/-- What the loop of `APB_Run` has gone through. -/
structure Attempts where
  /-- The calls of `APB_SendInit`. -/
  inits : Nat
  /-- The calls that were not answered in time. -/
  failures : Nat
  /-- The links that were given up. -/
  losses : Nat
  deriving DecidableEq

/-- What an event adds. -/
def Attempts.upd (s : Server) (e : Event) (g : Attempts) : Attempts :=
  match e with
  | .run _ => match s.state with
    | .connecting => { g with inits := g.inits + 1 }
    | .connectFailed => { g with failures := g.failures + 1 }
    | .connectionLost => { g with losses := g.losses + 1 }
    | _ => g
  | _ => g

/-- The attempts of a run from the start. -/
def attempts (env : Env) (es : List Event) : Attempts := noted Attempts.upd (step env) ⟨0, 0, 0⟩ start es

/-- Whether the next iteration calls `APB_SendInit`. -/
def pending (s : Server) : Nat := if s.state = .connecting then 1 else 0

/-- The attempts that are left, and those that were made. -/
structure Counted (s : Server) (g : Attempts) : Prop where
  waiting : s.Waiting
  first : s.state.stage = .closed ∨ s.state.stage = .opening → g = ⟨0, 0, 0⟩
  left : s.state ≠ .starting → s.state.stage = .closed ∨ s.state.stage = .opening ∨ s.state.stage = .serving →
    s.retryCount + g.failures = 5 ∧ 1 ≤ s.retryCount
  made : s.state.stage = .serving → g.inits + s.pending ≤ 1 + g.failures + g.losses
  bound : g.inits ≤ 5 + g.losses ∧ g.failures ≤ 5

theorem counted_start : start.Counted ⟨0, 0, 0⟩ :=
  ⟨fun h => absurd rfl h, fun _ => rfl, fun h => absurd rfl h, nofun, ⟨Nat.zero_le _, Nat.zero_le _⟩⟩

/-- An iteration of the loop of `APB_Run` sets the attempts to five, or counts one. -/
theorem runStep_retryCount (env : Env) (s : Server) (ok : Bool) :
    (s.runStep env ok).retryCount = (if s.state = .starting then 5
      else if s.state = .connectFailed then (s.retryCount + 65535) % 65536 else s.retryCount) ∧
    (s.state = .connectFailed → (s.runStep env ok).state = .connecting → (s.runStep env ok).retryCount ≠ 0) := by
  cases hs : s.state with
  | connecting =>
    obtain ⟨o, state, phase, -, -, he, -⟩ := sendInit_eq env s
    simp [runStep, hs, he]
  | disconnecting =>
    obtain ⟨o, state, phase, -, -, he, -⟩ := sendShutdown_eq env s
    simp [runStep, hs, he]
  | _ => simp [runStep, hs]

/-- A server that serves is within bounds if it has counted right. -/
theorem Counted.of_serving {g : Attempts} (hw : s.Waiting) (hs : s.state.stage = .serving)
    (hr : s.retryCount + g.failures = 5 ∧ 1 ≤ s.retryCount) (hm : g.inits + s.pending ≤ 1 + g.failures + g.losses) :
    s.Counted g := by
  refine ⟨hw, fun hf => ?_, fun _ _ => hr, fun _ => hm, by omega⟩
  rcases hf with hf | hf <;> cases hs.symm.trans hf

/-- A server that is closing counts no more. -/
theorem Counted.of_closing {g : Attempts} (hw : s.Waiting) (hs : s.state.stage = .closing ∨ s.state.stage = .stopped)
    (hb : g.inits ≤ 5 + g.losses ∧ g.failures ≤ 5) : s.Counted g := by
  refine ⟨hw, fun hf => ?_, fun _ hf => ?_, fun hf => ?_, hb⟩
  · rcases hf with hf | hf <;> simp [hf] at hs
  · rcases hf with hf | hf | hf <;> simp [hf] at hs
  · simp [hf] at hs

/-- **An iteration of the loop** of `APB_Run` keeps the account. -/
theorem Counted.runStep {g : Attempts} (h : s.Counted g) (hp : s.phase = .loop) (env : Env) (ok : Bool) :
    (s.runStep env ok).Counted (Attempts.upd s (.run ok) g) := by
  obtain ⟨hafter, hw⟩ := runStep_after env s ok hp
  obtain ⟨hret, hzero⟩ := runStep_retryCount env s ok
  obtain ⟨-, hfirst, hleft, hmade, hb⟩ := h
  generalize s.runStep env ok = t at hafter hw hret hzero ⊢
  unfold pending at hmade
  cases hs : s.state <;>
    simp only [hs, After, Attempts.upd, ServerState.stage, reduceCtorEq, if_true, if_false, ne_eq, not_false_eq_true,
      not_true_eq_false, true_or, or_true, or_self, forall_const, false_implies] at *
  case starting => exact ⟨hw, fun _ => hfirst, fun _ _ => by simp [hret, hfirst], by simp [hafter, ServerState.stage], hb⟩
  case openingRemote =>
    rcases hafter with ht | ht
    · exact ⟨hw, fun _ => hfirst, fun _ _ => hret ▸ hleft, by simp [ht, ServerState.stage], hb⟩
    · exact .of_closing hw (.inl (congrArg _ ht)) hb
  case openingClient =>
    rcases hafter with ht | ht
    · exact .of_serving hw (congrArg _ ht) (hret ▸ hleft) (by simp [pending, ht, hfirst])
    · exact .of_closing hw (.inl (congrArg _ ht)) hb
  case connecting =>
    rcases hafter with ht | ht
    · refine .of_serving hw (congrArg _ ht) (hret ▸ hleft) ?_
      simp only [pending, ht, reduceCtorEq, if_false]
      omega
    · exact .of_closing hw (.inl (congrArg _ ht)) (by dsimp only; omega)
  case connectFailed =>
    rcases hafter with ht | ht
    · have := hzero ht
      refine .of_serving hw (congrArg _ ht) (by dsimp only; omega) ?_
      simp only [pending, ht, if_true]
      omega
    · exact .of_closing hw (.inl (congrArg _ ht)) (by dsimp only; omega)
  case connectionLost =>
    refine .of_serving hw (congrArg _ hafter) (hret ▸ hleft) ?_
    simp only [pending, hafter, if_true]
    omega
  case disconnecting =>
    rcases hafter with ht | ht
    · exact .of_serving hw (congrArg _ ht) (hret ▸ hleft) (by simpa [pending, ht] using hmade)
    · exact .of_closing hw (.inl (congrArg _ ht)) hb
  case disconnected => exact .of_closing hw (.inl (congrArg _ hafter)) hb
  case stopping => exact .of_closing hw (.inl (congrArg _ hafter)) hb
  case closingClient => exact .of_closing hw (.inl (congrArg _ hafter)) hb
  case closingRemote => exact .of_closing hw (.inr (congrArg _ hafter)) hb
  case stopped => exact .of_closing hw (.inr (congrArg _ hafter)) hb
  -- the server waits again
  all_goals exact .of_serving hw (congrArg _ hafter) (hret ▸ hleft) (by simpa [pending, hafter] using hmade)

/-- **Every step** keeps the account. -/
theorem Counted.step {g : Attempts} (h : s.Counted g) (hen : s.Enabled e) (he : Server.step env s e = some s') :
    s'.Counted (Attempts.upd s e g) := by
  by_cases hp : s.phase = .loop
  · cases e with
    | run ok =>
      cases he
      exact h.runStep hp env ok
    | wake brk => cases hp.symm.trans hen
    | timer fired => cases hp.symm.trans hen.1
    | request req => cases hp.symm.trans hen.1
    | requestsDone => cases hp.symm.trans hen
    | packet seq pac => cases hp.symm.trans hen
    | packetsDone => cases hp.symm.trans hen
  · -- the server serves, and nothing is noted
    have hg : Attempts.upd s e g = g := by
      cases e with
      | run ok => exact absurd hen.1 hp
      | _ => rfl
    obtain ⟨hs, hn⟩ := h.waiting.step hen hp he
    obtain ⟨hs₀, hn₀⟩ := h.waiting hp
    rw [hg]
    refine ⟨fun _ => ⟨hs, hn⟩, fun hf => ?_, fun _ _ => ?_, fun _ => ?_, h.bound⟩
    · rcases hf with hf | hf <;> cases hs.symm.trans hf
    · rw [step_retryCount hen hp he]
      exact h.left (fun hst => by rw [hst] at hs₀; cases hs₀) (.inr (.inr hs₀))
    · rw [pending, if_neg hn]
      exact Nat.le_trans (Nat.le_add_right _ _) (h.made hs₀)

/-- **The attempts to connect are bounded**, whatever happens: a server calls `APB_SendInit` five times at most, and once
more for each link that it gave up. -/
theorem attempts_bounded (env : Env) {es : List Event} {x : Server} (h : Along Enabled (step env) start es)
    (hx : runs (step env) start es = some x) :
    (attempts env es).inits ≤ 5 + (attempts env es).losses ∧ (attempts env es).failures ≤ 5 :=
  have hstep : ∀ s e s' a, Counted s a → Enabled s e → step env s e = some s' → Counted s' (a.upd s e) :=
    fun _ _ _ _ hI hen he => hI.step hen he
  have hc : Counted x (attempts env es) := noted_inv Counted hstep counted_start h hx
  hc.bound

/-- Two attempts of five fail. -/
theorem attempts_bounded_two : ∃ x : Server, runs (step plenty) start ([.run true, .run true, .run true] ++ attempt ++
      attempt) = some x ∧
    (attempts plenty ([.run true, .run true, .run true] ++ attempt ++ attempt)).inits ≤
        5 + (attempts plenty ([.run true, .run true, .run true] ++ attempt ++ attempt)).losses ∧
      (attempts plenty ([.run true, .run true, .run true] ++ attempt ++ attempt)).failures ≤ 5 := by
  obtain ⟨x, hx⟩ : ∃ x, runs (step plenty) start ([.run true, .run true, .run true] ++ attempt ++ attempt) = some x :=
    Option.isSome_iff_exists.1 (by decide +kernel)
  exact ⟨x, hx, attempts_bounded plenty (by decide +kernel) hx⟩

end Server

end AmiPiBorg
