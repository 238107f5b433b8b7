import AmiPiBorg.Server.Books

/-!
# The link to the Pi

Two counters watch the link: `pingSendTicks` runs until the next ping, `pingTimeoutTicks` until its answer is late. A
packet sets the first, a ping that is sent the second, and one of them is always 0. A ping that is not answered leaves
both at 0, so the link is watched only as long as no ping is lost (`link_watched`, `silence_unnoticed`), and it is given
up only if `MAX_MISSED_PINGS` pings were lost before.

A server that was told to quit goes on to `SS_STOPPED` without a new connection (`quit_final`), unless the Pi says hello
before the loop of `APB_Run` has seen that state (`hello_undoes_quit`).
-/

set_option autoImplicit false

namespace AmiPiBorg.Server

open ProgLib

variable {env : Env} {s s' t : Server} {ip : InPac} {e : Event} {es : List Event}

/-! ## What changes the counters -/

/-- A ping is sent, or nothing is. -/
theorem sendPing_steady (env : Env) (s : Server) : Steady s (s.sendPing env) ∨
    Steady { s with pingTimeoutTicks := pingTicks, pingSendTicks := 0 } (s.sendPing env) := by
  have h := steady_send env s sizeofPacket ⟨none, defaultConnection, ptPing, []⟩
  unfold sendPing
  dsimp only
  split
  · exact .inr ⟨h.state, rfl, h.missedPingCount, rfl, h.timerOn, h.phase, h.quit⟩
  · exact .inl h

/-- With packets to be had, a ping is sent. -/
theorem sendPing_of_packets (hp : ∀ n, env.packet n = true) (s : Server) :
    Steady { s with pingTimeoutTicks := pingTicks, pingSendTicks := 0 } (s.sendPing env) := by
  unfold sendPing
  rw [send_of_packet (Nat.le_refl _) (by decide) (hp _)]
  exact ⟨rfl, rfl, rfl, rfl, rfl, rfl, rfl⟩

/-- What a control packet does to the server. -/
theorem handleControlPacket_steady (env : Env) (s : Server) (ip : InPac) :
    (ip.pac.type = ptHello ∧ (Steady { s with state := .connected } (s.handleControlPacket env ip) ∨
        Steady { s with state := .connected, pingTimeoutTicks := pingTicks, pingSendTicks := 0 }
          (s.handleControlPacket env ip))) ∨
      ip.pac.type ≠ ptHello ∧
        (Steady { s with state := .disconnected, quit := true } (s.handleControlPacket env ip) ∨
          Steady { s with missedPingCount := 0 } (s.handleControlPacket env ip) ∨
          Steady s (s.handleControlPacket env ip)) := by
  unfold handleControlPacket
  dsimp only
  split
  · next hh =>
    refine .inl ⟨hh, ?_⟩
    exact (sendPing_steady env { s with state := .connected }).imp (fun h => h.trans (steady_release _ ip))
      fun h => h.trans (steady_release _ ip)
  · next hh =>
    refine .inr ⟨hh, ?_⟩
    split
    · exact .inl (steady_release _ ip)
    split
    · exact .inr (.inl (steady_release _ ip))
    · exact .inr (.inr (steady_release _ ip))

/-- **What a packet does to the server**: it sets the counters, and a control packet does the rest. -/
theorem handlePacket_steady (env : Env) (s : Server) (ip : InPac) :
    (ip.pac.connId = defaultConnection ∧
        ∃ t, Steady (s.hear ip) t ∧ s.handlePacket env ip = t.handleControlPacket env ip) ∨
      ip.pac.connId ≠ defaultConnection ∧ Steady (s.hear ip) (s.handlePacket env ip) := by
  rw [handlePacket_eq]
  have hn := steady_noteId env (s.hear ip) ip
  by_cases h : ip.pac.connId = defaultConnection
  · refine .inl ⟨h, _, hn, ?_⟩
    unfold dispatch
    rw [if_pos h]
  · exact .inr ⟨h, hn.trans (steady_dispatch env _ h)⟩

/-! ## The link is watched -/

/-- One of the counters runs, and only one. -/
def Counting (s : Server) : Prop :=
  0 < s.pingSendTicks ∧ s.pingTimeoutTicks = 0 ∨ s.pingSendTicks = 0 ∧ 0 < s.pingTimeoutTicks

theorem Counting.congr (h : s.Counting) (hs : s'.pingSendTicks = s.pingSendTicks)
    (ht : s'.pingTimeoutTicks = s.pingTimeoutTicks) : s'.Counting := by
  unfold Counting
  rw [hs, ht]
  exact h

theorem Counting.steady (h : s.Counting) (hs : Steady s s') : s'.Counting := h.congr hs.pingSendTicks hs.pingTimeoutTicks

/-- After a packet, one of the counters runs. -/
theorem counting_handlePacket (env : Env) (s : Server) (ip : InPac) : (s.handlePacket env ip).Counting := by
  have hh : (s.hear ip).Counting := .inl ⟨Nat.succ_pos 4, rfl⟩
  obtain ⟨-, t, ht, h⟩ | ⟨-, h⟩ := handlePacket_steady env s ip
  · have hc := hh.steady ht
    rw [h]
    obtain ⟨-, h | h⟩ | ⟨-, h | h | h⟩ := handleControlPacket_steady env t ip
    · exact hc.congr h.pingSendTicks h.pingTimeoutTicks
    · exact .inr ⟨h.pingSendTicks, by rw [h.pingTimeoutTicks]; exact Nat.succ_pos 4⟩
    · exact hc.congr h.pingSendTicks h.pingTimeoutTicks
    · exact hc.congr h.pingSendTicks h.pingTimeoutTicks
    · exact hc.steady h
  · exact hh.steady h

/-- A tick that finds the answer to a ping late gives the link up. -/
def PingAnswered (s : Server) : Event → Prop
  | .timer fired => fired = true → s.state = .connected → s.pingTimeoutTicks = 1 →
      maxMissedPings < (s.missedPingCount + 1) % 65536
  | _ => True

instance (s : Server) : (e : Event) → Decidable (PingAnswered s e)
  | .run _ => .isTrue trivial
  | .wake _ => .isTrue trivial
  | .timer _ => inferInstanceAs (Decidable (_ → _ → _ → _))
  | .request _ => .isTrue trivial
  | .requestsDone => .isTrue trivial
  | .packet .. => .isTrue trivial
  | .packetsDone => .isTrue trivial

/-- What a tick of a connected server does to the server and its counters. -/
theorem handleTimer_connected (env : Env) (hs : s.state = .connected) :
    (s.handleTimer env).state = s.checkPing.state ∧
      (s.handleTimer env).pingSendTicks = (s.checkPing.nextPing env).pingSendTicks ∧
      (s.handleTimer env).pingTimeoutTicks = (s.checkPing.nextPing env).pingTimeoutTicks ∧
      (s.handleTimer env).missedPingCount = s.checkPing.missedPingCount := by
  have hr := steady_checkRequestTimeouts (s.checkPing.nextPing env)
  have hn : (s.checkPing.nextPing env).state = s.checkPing.state ∧
      (s.checkPing.nextPing env).missedPingCount = s.checkPing.missedPingCount := by
    unfold nextPing
    split
    · obtain h | h := sendPing_steady env s.checkPing
      · exact ⟨h.state, h.missedPingCount⟩
      · exact ⟨h.state, h.missedPingCount⟩
    · split
      · exact ⟨rfl, rfl⟩
      · exact ⟨rfl, rfl⟩
  unfold handleTimer
  rw [hs]
  exact ⟨hr.state.trans hn.1, hr.pingSendTicks, hr.pingTimeoutTicks, hr.missedPingCount.trans hn.2⟩

/-- **A tick of a connected server**: a late answer leaves both counters at 0, otherwise one of them goes on. -/
theorem tick_cases (env : Env) (hs : s.state = .connected) (hc : s.Counting) :
    (s.pingTimeoutTicks = 1 ∧ (s.handleTimer env).pingSendTicks = 0 ∧ (s.handleTimer env).pingTimeoutTicks = 0 ∧
        (s.handleTimer env).missedPingCount = (s.missedPingCount + 1) % 65536 ∧
        (s.handleTimer env).state =
          if maxMissedPings < (s.missedPingCount + 1) % 65536 then .connectionLost else .connected) ∨
      s.pingTimeoutTicks ≠ 1 ∧ (s.handleTimer env).Counting ∧ (s.handleTimer env).state = .connected ∧
        (s.handleTimer env).missedPingCount = s.missedPingCount := by
  obtain ⟨h₁, h₂, h₃, h₄⟩ := handleTimer_connected env hs
  by_cases h : s.pingTimeoutTicks = 1
  · left
    have hz : s.pingSendTicks = 0 := by
      obtain ⟨-, hz⟩ | ⟨hz, -⟩ := hc
      · omega
      · exact hz
    have hp : s.checkPing.pingSendTicks = 0 ∧ s.checkPing.pingTimeoutTicks = 0 ∧
        s.checkPing.missedPingCount = (s.missedPingCount + 1) % 65536 ∧ s.checkPing.state =
          if maxMissedPings < (s.missedPingCount + 1) % 65536 then .connectionLost else .connected := by
      unfold checkPing
      rw [if_pos h]
      dsimp only
      split
      · exact ⟨hz, rfl, rfl, rfl⟩
      · exact ⟨hz, rfl, rfl, hs⟩
    have hn : s.checkPing.nextPing env = s.checkPing := by
      unfold nextPing
      rw [hp.1, if_neg (by decide), if_neg (by decide)]
    rw [hn] at h₂ h₃
    exact ⟨h, h₂.trans hp.1, h₃.trans hp.2.1, h₄.trans hp.2.2.1, h₁.trans hp.2.2.2⟩
  · right
    have hp : s.checkPing.Counting ∧ s.checkPing.state = s.state ∧ s.checkPing.missedPingCount = s.missedPingCount := by
      unfold checkPing
      rw [if_neg h]
      split
      · obtain ⟨-, hz⟩ | ⟨hz, -⟩ := hc
        · omega
        · exact ⟨.inr ⟨hz, by dsimp only; omega⟩, rfl, rfl⟩
      · exact ⟨hc, rfl, rfl⟩
    have hn : (s.checkPing.nextPing env).Counting := by
      unfold nextPing
      split
      · obtain hq | hq := sendPing_steady env s.checkPing
        · exact hp.1.steady hq
        · exact .inr ⟨hq.pingSendTicks, by rw [hq.pingTimeoutTicks]; exact Nat.succ_pos 4⟩
      · split
        · obtain ⟨-, hz⟩ | ⟨hz, -⟩ := hp.1
          · exact .inl ⟨by dsimp only; omega, hz⟩
          · omega
        · exact hp.1
    exact ⟨h, hn.congr h₂ h₃, h₁.trans (hp.2.1.trans hs), h₄.trans hp.2.2⟩

/-- A connected server counts. -/
def Watched (s : Server) : Prop := s.state = .connected → s.Counting

/-- The link is armed, in the words of the counters. -/
def Armed (s : Server) : Prop := s.state = .connected → 0 < s.pingSendTicks ∨ 0 < s.pingTimeoutTicks

theorem Watched.armed (h : s.Watched) : s.Armed := fun hs => (h hs).imp And.left And.right

theorem Watched.congr (h : s.Watched) (hc : s'.state = .connected → s.state = .connected)
    (hs : s'.pingSendTicks = s.pingSendTicks) (ht : s'.pingTimeoutTicks = s.pingTimeoutTicks) : s'.Watched :=
  fun he => (h (hc he)).congr hs ht

theorem Watched.steady (h : s.Watched) (hs : Steady s s') : s'.Watched :=
  h.congr (fun he => hs.state.symm.trans he) hs.pingSendTicks hs.pingTimeoutTicks

/-- The loop of `APB_Run` makes no server connected, and leaves the counters alone. -/
theorem runStep_counters (env : Env) (s : Server) (ok : Bool) :
    ((s.runStep env ok).state = .connected → s.state = .connected) ∧
      (s.runStep env ok).pingSendTicks = s.pingSendTicks ∧
      (s.runStep env ok).pingTimeoutTicks = s.pingTimeoutTicks := by
  unfold runStep
  split
  case h_4 =>
    obtain ⟨o, state, phase, -, -, he, hs⟩ := sendInit_eq env s
    have h := steady_send env s 18 o
    rw [he]
    refine ⟨fun hc => ?_, h.pingSendTicks, h.pingTimeoutTicks⟩
    rcases hs with rfl | rfl <;> cases hc
  case h_9 =>
    obtain ⟨o, state, phase, -, -, he, hs⟩ := sendShutdown_eq env s
    have h := steady_send env s sizeofPacket o
    rw [he]
    refine ⟨fun hc => ?_, h.pingSendTicks, h.pingTimeoutTicks⟩
    rcases hs with rfl | rfl
    · exact hc
    · cases hc
  case h_2 => cases ok <;> exact ⟨fun he => (by cases he), rfl, rfl⟩
  case h_3 => cases ok <;> exact ⟨fun he => (by cases he), rfl, rfl⟩
  case h_7 =>
    dsimp only
    split
    · exact ⟨fun he => (by cases he), rfl, rfl⟩
    · exact ⟨fun he => (by cases he), rfl, rfl⟩
  all_goals first
    | exact ⟨fun he => (by cases he), rfl, rfl⟩
    | exact ⟨fun he => he, rfl, rfl⟩

/-- A tick makes no server connected. -/
theorem handleTimer_not_connected (env : Env) (hs : s.state ≠ .connected) :
    (s.handleTimer env).state ≠ .connected := by
  unfold handleTimer
  dsimp only
  split
  · exact fun he => by cases he
  · next h => exact absurd h hs
  · exact fun he => by cases he
  · exact hs

theorem Watched.step (h : s.Watched) (ha : s.PingAnswered e) (he : Server.step env s e = some s') : s'.Watched := by
  cases e with
  | run ok =>
    cases he
    obtain ⟨h₁, h₂, h₃⟩ := runStep_counters env s ok
    exact h.congr h₁ h₂ h₃
  | wake brk =>
    cases he
    split
    · exact fun he => by cases he
    · exact h.congr (fun he => he) rfl rfl
  | timer fired =>
    cases he
    show Watched { (if fired then s.handleTimer env else s) with phase := .client }
    cases fired with
    | false => exact h.congr (fun he => he) rfl rfl
    | true =>
      rw [if_pos rfl]
      intro hc
      by_cases hs : s.state = .connected
      · obtain ⟨h₁, -, -, -, h₅⟩ | ⟨-, h₂, -⟩ := tick_cases env hs (h hs)
        · have hc' : (s.handleTimer env).state = .connected := hc
          rw [h₅, if_pos (ha rfl hs h₁)] at hc'
          cases hc'
        · exact h₂.congr rfl rfl
      · exact absurd hc (handleTimer_not_connected env hs)
  | request req =>
    obtain hs | hs := receiveRequest_steady he
    · have h' : ({ s with taken := s.taken + 1 } : Server).Watched := h.congr (fun he => he) rfl rfl
      exact h'.steady hs
    · intro hc
      rw [hs.state] at hc
      cases hc
  | requestsDone =>
    cases he
    exact h.congr (fun he => he) rfl rfl
  | packet seq pac =>
    cases he
    exact fun _ => counting_handlePacket env _ _
  | packetsDone =>
    cases he
    exact h.congr (fun he => he) rfl rfl

/-! ### Ticks alone -/

/-- The ticks until the answer to the next ping is late. -/
def remaining (s : Server) : Nat :=
  if 0 < s.pingSendTicks then s.pingSendTicks + pingTicks else s.pingTimeoutTicks

/-- With packets to be had, every tick brings the late answer nearer. -/
theorem tick_remaining (hp : ∀ n, env.packet n = true) (hs : s.state = .connected) (hc : s.Counting)
    (ht : s.pingTimeoutTicks ≠ 1) : (s.handleTimer env).remaining + 1 = s.remaining := by
  obtain ⟨-, h₂, h₃, -⟩ := handleTimer_connected env hs
  have hr : (s.handleTimer env).remaining = (s.checkPing.nextPing env).remaining := by
    unfold remaining
    rw [h₂, h₃]
  rw [hr]
  obtain ⟨hc₁, hc₂⟩ | ⟨hc₁, hc₂⟩ := hc
  · have hk : s.checkPing = s := by
      unfold checkPing
      rw [if_neg ht, if_neg (by omega)]
    have hrs : s.remaining = s.pingSendTicks + pingTicks := if_pos hc₁
    rw [hk, hrs]
    unfold nextPing
    split
    · next h =>
      have hq := sendPing_of_packets hp s
      unfold remaining
      rw [hq.pingSendTicks, hq.pingTimeoutTicks, if_neg (Nat.lt_irrefl 0), h, Nat.add_comm]
    · rw [if_pos (by omega)]
      unfold remaining
      rw [if_pos (by dsimp only; omega)]
      dsimp only
      omega
  · have hk : s.checkPing = { s with pingTimeoutTicks := s.pingTimeoutTicks - 1 } := by
      unfold checkPing
      rw [if_neg ht, if_pos (by omega)]
    have hn : ({ s with pingTimeoutTicks := s.pingTimeoutTicks - 1 } : Server).nextPing env =
        { s with pingTimeoutTicks := s.pingTimeoutTicks - 1 } := by
      unfold nextPing
      dsimp only
      rw [hc₁, if_neg (by decide), if_neg (by decide)]
    have hrs : s.remaining = s.pingTimeoutTicks := if_neg (by omega)
    rw [hk, hn, hrs]
    unfold remaining
    rw [if_neg (by dsimp only; omega)]
    dsimp only
    omega

/-- Ticks alone give the link up after `MAX_MISSED_PINGS` late answers. -/
theorem exists_given_up (hp : ∀ n, env.packet n = true) : ∀ (k : Nat) {s : Server}, s.remaining = k →
    s.state = .connected → s.Counting → maxMissedPings < (s.missedPingCount + 1) % 65536 →
    ∃ n, ((handleTimer env)^[n] s).state = .connectionLost := by
  intro k
  induction k with
  | zero =>
    intro s hk _ hc _
    unfold remaining at hk
    obtain ⟨hc₁, -⟩ | ⟨hc₁, hc₂⟩ := hc
    · rw [if_pos hc₁] at hk
      omega
    · rw [hc₁, if_neg (Nat.lt_irrefl 0)] at hk
      omega
  | succ k ih =>
    intro s hk hs hc hm
    obtain ⟨-, -, -, -, h₅⟩ | ⟨h₁, h₂, h₃, h₄⟩ := tick_cases env hs hc
    · refine ⟨1, ?_⟩
      rw [Function.iterate_one, h₅, if_pos hm]
    · have hr := tick_remaining hp hs hc h₁
      obtain ⟨n, hn⟩ := ih (by omega) h₃ h₂ (by rw [h₄]; exact hm)
      exact ⟨n + 1, hn⟩

/-- A server with both counters at 0 stays as it is. -/
theorem tick_of_zero (env : Env) (hs : s.state = .connected) (h₁ : s.pingSendTicks = 0) (h₂ : s.pingTimeoutTicks = 0) :
    (s.handleTimer env).state = .connected ∧ (s.handleTimer env).pingSendTicks = 0 ∧
      (s.handleTimer env).pingTimeoutTicks = 0 := by
  obtain ⟨t₁, t₂, t₃, -⟩ := handleTimer_connected env hs
  have hk : s.checkPing = s := by
    unfold checkPing
    rw [h₂, if_neg (by decide), if_neg (by decide)]
  have hn : s.nextPing env = s := by
    unfold nextPing
    rw [h₁, if_neg (by decide), if_neg (by decide)]
  rw [hk] at t₁ t₂ t₃
  rw [hn] at t₂ t₃
  exact ⟨t₁.trans hs, t₂.trans h₁, t₃.trans h₂⟩

/-- Otherwise ticks alone leave the server connected for ever. -/
theorem not_given_up (env : Env) (hm : ¬maxMissedPings < (s.missedPingCount + 1) % 65536) (hs : s.state = .connected)
    (hc : s.Counting) (n : Nat) : ((handleTimer env)^[n] s).state = .connected := by
  -- it counts with as many late answers as before, or both counters are at 0
  suffices h : ((handleTimer env)^[n] s).state = .connected ∧
      (((handleTimer env)^[n] s).Counting ∧ ((handleTimer env)^[n] s).missedPingCount = s.missedPingCount ∨
        ((handleTimer env)^[n] s).pingSendTicks = 0 ∧ ((handleTimer env)^[n] s).pingTimeoutTicks = 0) from h.1
  induction n with
  | zero => exact ⟨hs, .inl ⟨hc, rfl⟩⟩
  | succ n ih =>
    rw [Function.iterate_succ_apply']
    obtain ⟨ih₁, ⟨ih₂, ih₃⟩ | ⟨ih₂, ih₃⟩⟩ := ih
    · obtain ⟨-, h₂, h₃, -, h₅⟩ | ⟨-, h₂, h₃, h₄⟩ := tick_cases env ih₁ ih₂
      · rw [ih₃, if_neg hm] at h₅
        exact ⟨h₅, .inr ⟨h₂, h₃⟩⟩
      · exact ⟨h₃, .inl ⟨h₂, h₄.trans ih₃⟩⟩
    · obtain ⟨h₁, h₂, h₃⟩ := tick_of_zero env ih₁ ih₂ ih₃
      exact ⟨h₁, .inr ⟨h₂, h₃⟩⟩

/-- **The link is watched** as long as no tick finds an answer late and lets it pass. Silence is then noticed if and only
if `MAX_MISSED_PINGS` pings were lost already. -/
theorem link_watched (env : Env) {es : List Event} {x : Server} (h : Along PingAnswered (step env) start es)
    (hx : runs (step env) start es = some x) :
    x.Armed ∧ (x.state = .connected → (∀ n, env.packet n = true) →
      ((∃ n, ((handleTimer env)^[n] x).state = .connectionLost) ↔
        maxMissedPings < (x.missedPingCount + 1) % 65536)) := by
  have hw : x.Watched := runs_inv Watched (fun _ _ _ hw ha he => hw.step ha he) (fun hs => by cases hs) h hx
  refine ⟨hw.armed, fun hs hp => ⟨fun ⟨n, hn⟩ => ?_, exists_given_up hp _ rfl hs (hw hs)⟩⟩
  by_contra hm
  rw [not_given_up env hm hs (hw hs) n] at hn
  cases hn

/-- A call of `APB_WaitForMessage` with only the timer. -/
def tick : List Event := [.run true, .wake false, .timer true, .requestsDone, .packetsDone]

/-- The Pi says hello and then nothing more. -/
def silence : List Event := greeting ++ tick ++ tick ++ tick ++ tick ++ tick

theorem silence_unnoticed : Along Enabled (step plenty) start silence ∧
    ∃ x : Server, runs (step plenty) start silence = some x ∧ x.state = .connected ∧ ¬x.Armed := by
  refine ⟨by decide +kernel, ?_⟩
  have h : (runs (step plenty) start silence).map (fun x => (x.state, x.pingSendTicks, x.pingTimeoutTicks)) =
      some (.connected, 0, 0) := by
    decide +kernel
  obtain ⟨x, hx, he⟩ := Option.map_eq_some_iff.1 h
  rw [Prod.mk.injEq, Prod.mk.injEq] at he
  refine ⟨x, hx, he.1, fun ha => ?_⟩
  have ha := ha he.1
  rw [he.2.1, he.2.2] at ha
  exact absurd ha (by decide)

/-- The first ping is answered in time, and the next one is sent. -/
def answeredPing : List Event := greeting ++ tick ++ pass [] [bare 2 ptPong 0] ++ tick ++ tick ++ tick ++ tick ++ tick

/-- Both counters have run down in this run. Silence from here on would not be noticed. -/
theorem link_watched_answered : ∃ x : Server, runs (step plenty) start answeredPing = some x ∧ x.state = .connected ∧
    x.Armed ∧ ∀ n, ((handleTimer plenty)^[n] x).state ≠ .connectionLost := by
  have h : (runs (step plenty) start answeredPing).map (fun x => (x.state, x.missedPingCount)) =
      some (.connected, 0) := by
    decide +kernel
  obtain ⟨x, hx, he⟩ := Option.map_eq_some_iff.1 h
  rw [Prod.mk.injEq] at he
  obtain ⟨harmed, hsilence⟩ := link_watched plenty (by decide +kernel) hx
  refine ⟨x, hx, he.1, harmed, fun n hn => ?_⟩
  have := (hsilence he.1 fun _ => rfl).1 ⟨n, hn⟩
  rw [he.2] at this
  exact absurd this (by decide)

/-! ## A quit is final -/

/-- The server is not, and does not come to be, connected. -/
def NotConnecting (s : Server) : Prop :=
  s.state ≠ .connecting ∧ s.state ≠ .waitForConnect ∧ s.state ≠ .connected

/-- On its way to `SS_STOPPED`, in the loop of `APB_Run`. -/
def Leaving (s : Server) : Prop :=
  s.state = .stopping ∨ s.state = .closingClient ∨ s.state = .closingRemote ∨ s.state = .stopped

/-- A server that was told to quit is disconnected, or has left the calls of `APB_WaitForMessage` behind. -/
def Quitting (s : Server) : Prop := s.quit = true → s.state = .disconnected ∨ s.phase = .loop ∧ s.Leaving

/-- No hello is handled while the server is disconnected. -/
def NoLateHello (s : Server) : Event → Prop
  | .packet _ pac => pac.connId = defaultConnection → pac.type = ptHello → s.state ≠ .disconnected
  | _ => True

instance (s : Server) : (e : Event) → Decidable (NoLateHello s e)
  | .run _ => .isTrue trivial
  | .wake _ => .isTrue trivial
  | .timer _ => .isTrue trivial
  | .request _ => .isTrue trivial
  | .requestsDone => .isTrue trivial
  | .packet .. => inferInstanceAs (Decidable (_ → _ → _))
  | .packetsDone => .isTrue trivial

theorem Quitting.not_connecting (h : s.Quitting) (hq : s.quit = true) : s.NotConnecting := by
  have hs : s.state = .disconnected ∨ s.Leaving := (h hq).imp_right And.right
  unfold Leaving at hs
  unfold NotConnecting
  grind

/-- Before the packets of a call of `APB_WaitForMessage` are handled, a server that was told to quit is disconnected. -/
theorem Quitting.disconnected (h : s.Quitting) (hp : s.phase ≠ .loop) (hq : s.quit = true) : s.state = .disconnected :=
  (h hq).resolve_right fun hl => hp hl.1

theorem Quitting.steady (h : s.Quitting) (hs : Steady s s') : s'.Quitting := by
  intro hq
  unfold Leaving
  rw [hs.state, hs.phase]
  exact h (hs.quit.symm.trans hq)

theorem runStep_quit (env : Env) (s : Server) (ok : Bool) : (s.runStep env ok).quit = s.quit := by
  unfold runStep
  split
  case h_4 =>
    obtain ⟨o, state, phase, -, -, h, -⟩ := sendInit_eq env s
    rw [h]
    exact (steady_send env s 18 o).quit
  case h_9 =>
    obtain ⟨o, state, phase, -, -, h, -⟩ := sendShutdown_eq env s
    rw [h]
    exact (steady_send env s sizeofPacket o).quit
  all_goals rfl

theorem handleTimer_quit (env : Env) (s : Server) : (s.handleTimer env).quit = s.quit := by
  have hc : s.checkPing.quit = s.quit := by
    unfold checkPing
    dsimp only
    split
    · split
      · rfl
      · rfl
    · split
      · rfl
      · rfl
  have hn : (s.checkPing.nextPing env).quit = s.checkPing.quit := by
    unfold nextPing
    split
    · obtain h | h := sendPing_steady env s.checkPing
      · exact h.quit
      · exact h.quit
    · split
      · rfl
      · rfl
  unfold handleTimer
  dsimp only
  split
  · rfl
  · exact (steady_checkRequestTimeouts _).quit.trans (hn.trans hc)
  · rfl
  · rfl

/-- The loop of `APB_Run` goes from a quit to `SS_STOPPED`. -/
theorem Quitting.runStep (h : s.Quitting) (hp : s.phase = .loop) (env : Env) (ok : Bool) :
    (s.runStep env ok).Quitting := by
  intro hq
  right
  unfold Server.runStep
  obtain hs | ⟨-, hs | hs | hs | hs⟩ := h ((runStep_quit env s ok).symm.trans hq)
  · rw [hs]
    exact ⟨hp, .inl rfl⟩
  · rw [hs]
    exact ⟨hp, .inr (.inl rfl)⟩
  · rw [hs]
    exact ⟨hp, .inr (.inr (.inl rfl))⟩
  · rw [hs]
    exact ⟨hp, .inr (.inr (.inr rfl))⟩
  · rw [hs]
    exact ⟨hp, .inr (.inr (.inr hs))⟩

theorem Quitting.step (h : s.Quitting) (hen : s.Enabled e) (hl : s.NoLateHello e)
    (he : Server.step env s e = some s') : s'.Quitting := by
  cases e with
  | run ok =>
    cases he
    exact h.runStep hen.1 env ok
  | wake brk =>
    have hp : s.phase ≠ .loop := by rw [show s.phase = .wait from hen]; decide
    cases he
    cases brk with
    | true => exact fun _ => .inl rfl
    | false => exact fun hq => .inl (h.disconnected hp hq)
  | timer fired =>
    have hp : s.phase ≠ .loop := by rw [hen.1]; decide
    cases he
    cases fired with
    | false => exact fun hq => .inl (h.disconnected hp hq)
    | true =>
      intro hq
      left
      have hs := h.disconnected hp ((handleTimer_quit env s).symm.trans hq)
      show (s.handleTimer env).state = .disconnected
      unfold handleTimer
      rw [hs]
      exact hs
  | request req =>
    have hp : s.phase ≠ .loop := by rw [hen.1]; decide
    obtain hs | hs := receiveRequest_steady he
    · have h' : ({ s with taken := s.taken + 1 } : Server).Quitting := fun hq => .inl (h.disconnected hp hq)
      exact h'.steady hs
    · exact fun _ => .inl hs.state
  | requestsDone =>
    have hp : s.phase ≠ .loop := by rw [show s.phase = .client from hen]; decide
    cases he
    exact fun hq => .inl (h.disconnected hp hq)
  | packet seq pac =>
    have hp : s.phase ≠ .loop := by rw [show s.phase = .remote from hen]; decide
    cases he
    intro hq
    left
    obtain ⟨hd, t, ht, he⟩ | ⟨-, hs⟩ := handlePacket_steady env { s with dequeued := s.dequeued + 1 } ⟨s.dequeued, seq, pac⟩
    · rw [he] at hq ⊢
      obtain ⟨hh, hs⟩ | ⟨-, hs | hs | hs⟩ := handleControlPacket_steady env t ⟨s.dequeued, seq, pac⟩
      · have hq' : s.quit = true := by
          rw [← hq]
          obtain hs | hs := hs
          · exact (hs.quit.trans ht.quit).symm
          · exact (hs.quit.trans ht.quit).symm
        exact absurd (h.disconnected hp hq') (hl hd hh)
      · exact hs.state
      · rw [hs.state]
        exact ht.state.trans (h.disconnected hp ((hs.quit.trans ht.quit).symm.trans hq))
      · rw [hs.state]
        exact ht.state.trans (h.disconnected hp ((hs.quit.trans ht.quit).symm.trans hq))
    · rw [hs.state]
      exact h.disconnected hp (hs.quit.symm.trans hq)
  | packetsDone =>
    have hp : s.phase ≠ .loop := by rw [show s.phase = .remote from hen]; decide
    cases he
    exact fun hq => .inl (h.disconnected hp hq)

/-- **A quit is final**, if no hello comes in the call of `APB_WaitForMessage` in which the server is told to quit. -/
theorem quit_final (env : Env) {es : List Event} {x : Server}
    (h : Along (fun s e => Enabled s e ∧ NoLateHello s e) (step env) start es)
    (hx : runs (step env) start es = some x) : x.quit = true → x.NotConnecting :=
  (runs_inv Quitting (fun _ _ _ hq ha he => hq.step ha.1 ha.2 he) (fun hq => by cases hq) h hx).not_connecting

/-- A break signal, with these packets in the same call of `APB_WaitForMessage`. -/
def breakPass (pacs : List InPac) : List Event :=
  [.run true, .wake true, .timer false, .requestsDone] ++ (pacs.map fun ip => .packet ip.seq ip.pac) ++ [.packetsDone]

theorem hello_undoes_quit : Along Enabled (step plenty) start (greeting ++ breakPass [bare 2 ptHello 0]) ∧
    ∃ x : Server, runs (step plenty) start (greeting ++ breakPass [bare 2 ptHello 0]) = some x ∧
      x.quit = true ∧ x.state = .connected := by
  refine ⟨by decide +kernel, ?_⟩
  have h : (runs (step plenty) start (greeting ++ breakPass [bare 2 ptHello 0])).map (fun x => (x.quit, x.state)) =
      some (true, .connected) := by
    decide +kernel
  obtain ⟨x, hx, he⟩ := Option.map_eq_some_iff.1 h
  rw [Prod.mk.injEq] at he
  exact ⟨x, hx, he⟩

theorem quit_final_goodbye : ∃ x : Server,
    runs (step plenty) start (greeting ++ pass [] [bare 2 ptGoodbye 0] ++ [.run true]) = some x ∧
      (x.quit = true → x.NotConnecting) := by
  obtain ⟨x, hx⟩ : ∃ x, runs (step plenty) start (greeting ++ pass [] [bare 2 ptGoodbye 0] ++ [.run true]) = some x :=
    Option.isSome_iff_exists.1 (by decide +kernel)
  exact ⟨x, hx, quit_final plenty (by decide +kernel) hx⟩

end AmiPiBorg.Server
