import AmiPiBorg.Fs.Messages

/-!
# The ports that `FS_Run` waits on

`PutMsg` sets the bit of the port in the signals of the task, and `Wait` clears all bits that it returns. `Device` is
the client with its signals and what is at `fs_RemotePort`, between two looks at a port; its steps are those of the
client (`Fs.step`), in the order of `FS_Run`, and others send messages at any time. `iteration_serves` says which
iterations serve all that was signalled, and `runs_settled` what follows for the packets.
-/

set_option autoImplicit false

namespace AmiPiBorg.Fs

open ProgLib

variable {v : Addr} {mems : List (Option Addr)} {lock : Option Addr}

/-! ## `FS_Run` -/

/-- A volume has a message at its port. -/
def State.HasMessage (s : State) (v : Addr) : Prop := ∃ m ∈ s.msgs, m.1 = v

instance (s : State) (v : Addr) : Decidable (s.HasMessage v) := by unfold State.HasMessage; infer_instance

/-- What is at `fs_RemotePort`. -/
inductive Message where
  /-- `fs_Reader`, with what was read. -/
  | reader (res : FsResponse)
  /-- `fs_Reader`, with an error state. -/
  | readerError
  /-- `fs_Writer`. -/
  | writer
  | other

/-- `fs_Reader` is at the port. -/
def Message.isReader : Message → Bool
  | .reader _ | .readerError => true
  | .writer | .other => false

/-- `fs_Writer` is at the port. -/
def Message.isWriter : Message → Bool
  | .writer => true
  | .reader _ | .readerError | .other => false

/-- Signals: the volumes whose ports have their bits set, the bit of `fs_RemotePort`, and `SIGBREAKF_CTRL_C`. -/
structure Signals where
  vols : List Addr
  remote : Bool
  brk : Bool
  deriving DecidableEq

/-- Where `FS_Run` is, with `sig`. -/
inductive Phase where
  /-- At `Wait`. -/
  | wait
  /-- In the loop of `FS_ReceiveDosMessage`. -/
  | volume (v : Addr) (sig : Signals)
  /-- Behind the loop over the volumes, or in the loop of `FS_ReceiveFromRemote`. -/
  | remote (sig : Signals)
  /-- `fs_Status` is `ST_STOPPING`. -/
  | stopping
  deriving DecidableEq

/-- Between `Wait` and the end of the iteration. -/
def Phase.Inside : Phase → Prop
  | .volume .. | .remote _ => True
  | .wait | .stopping => False

instance : DecidablePred Phase.Inside
  | .volume .. | .remote _ => .isTrue trivial
  | .wait | .stopping => .isFalse not_false

/-- The client with its signals and its other port. -/
structure Device where
  fs : State
  /-- The signals that the task has received. -/
  signals : Signals
  /-- The messages at `fs_RemotePort`. -/
  inbox : List Message
  phase : Phase
  /-- Ghost: the volumes whose bits `Wait` has returned in this iteration, and that have had messages ever since. -/
  unserved : List Addr
  /-- Ghost: the same for `fs_RemotePort`. -/
  unservedRemote : Bool

namespace Device

/-- What `Wait` returns. `fs_VolSigBits` has the bits of the volumes on `fs_Vols`. Nothing initialises it, so that
`Wait` may return for other bits too. -/
def returned (d : Device) : Signals := { d.signals with vols := d.signals.vols.filter (· ∈ d.fs.volList) }

/-- The volume at which the loop over `fs_Vols` is left. -/
def first (d : Device) (sig : Signals) : Option Addr := d.fs.volList.find? (· ∈ sig.vols)

/-- `Wait`, which clears the bits that it returns, and the loop up to the first volume with its bit. -/
def wait (d : Device) : Device :=
  let sig := d.returned
  { d with
    signals := ⟨d.signals.vols.filter (· ∉ d.fs.volList), false, false⟩
    phase := match d.first sig with
      | some v => .volume v sig
      | none => .remote sig
    unserved := sig.vols
    unservedRemote := sig.remote }

/-- A step of the client. Each message that gets to a port sets its bit. -/
def does (d : Device) (e : Fs.Event) : Option Device :=
  (Fs.step d.fs e).map fun fs =>
    let new := fs.msgs.drop (d.fs.kept e).length
    { d with fs := fs, signals := { d.signals with vols := d.signals.vols ++ new.map Prod.fst } }

/-- What `FS_ReceiveFromRemote` does with a message. -/
def receive (d : Device) (msg : Message) (lock : Option Addr) (m : State.Mounting) : Option Device :=
  match msg with
  | .reader res => d.does (.response res lock m)
  | .readerError => d.does .readerError
  | .writer => d.does .writerReply
  | .other => some d

/-- The end of an iteration. -/
def finish (d : Device) (sig : Signals) : Device :=
  { d with phase := if sig.brk && d.fs.canQuit then .stopping else .wait }

/-- `FS_Run`, up to the next look at a port. The arguments are what the system answers to what it asks for. -/
def run (d : Device) (mems : List (Option Addr)) (lock : Option Addr) (m : State.Mounting) : Option Device :=
  match d.phase with
  | .wait => some d.wait
  | .volume v sig =>
    -- The `break` behind the call leads here too.
    if d.fs.HasMessage v then d.does (.dos v mems lock) else some { d with phase := .remote sig }
  | .remote sig =>
    if sig.remote then
      match d.inbox with
      | [] => some (d.finish sig)
      | msg :: inbox => { d with inbox := inbox }.receive msg lock m
    else some (d.finish sig)
  | .stopping => none

/-- What happens. -/
inductive Event where
  /-- The client goes on. -/
  | run (mems : List (Option Addr)) (lock : Option Addr) (m : State.Mounting)
  /-- DOS sends a packet to a volume. -/
  | arrive (v p : Addr) (pkt : DosPacket)
  /-- A message gets to `fs_RemotePort`. -/
  | deliver (msg : Message)
  /-- The user breaks. -/
  | brk
  /-- Other tasks write to memory of their own. -/
  | poke (mem : Addr → UInt8) (locks : Addr → FsFileLock)

/-- What has no message now is not counted any more. -/
def watched (d : Device) : Device :=
  { d with
    unserved := d.unserved.filter fun v => d.fs.HasMessage v
    unservedRemote := d.unservedRemote && !d.inbox.isEmpty }

/-- What an event does. -/
def happen (d : Device) : Event → Option Device
  | .run mems lock m => d.run mems lock m
  | .arrive v p pkt => d.does (.arrive v p pkt)
  | .deliver msg => some { d with inbox := d.inbox ++ [msg], signals := { d.signals with remote := true } }
  | .brk => some { d with signals := { d.signals with brk := true } }
  | .poke mem locks => d.does (.poke mem locks)

/-- One step. -/
def step (d : Device) (e : Event) : Option Device := (d.happen e).map watched

/-- What the others may do. -/
def Legal (d : Device) : Event → Prop
  | .run mems lock m => FreshReqs d.fs mems ∧ FreshLock d.fs lock ∧ ∀ v ∈ m.mem, v ∉ d.fs.volList
  | .arrive v p pkt => Fs.Legal d.fs (.arrive v p pkt)
  | .deliver (.reader res) =>
    d.fs.reading = true ∧ (∀ msg ∈ d.inbox, msg.isReader = false) ∧ LegalResponse d.fs res
  | .deliver .readerError => d.fs.reading = true ∧ ∀ msg ∈ d.inbox, msg.isReader = false
  | .deliver .writer => d.fs.writeReady = false ∧ ∀ msg ∈ d.inbox, msg.isWriter = false
  | .deliver .other | .brk => True
  | .poke mem locks => Fs.Legal d.fs (.poke mem locks)

instance (d : Device) : (e : Event) → Decidable (Legal d e)
  | .run .. | .arrive .. | .poke .. => by unfold Legal; infer_instance
  | .deliver (.reader _) | .deliver .readerError | .deliver .writer => by unfold Legal; infer_instance
  | .deliver .other | .brk => .isTrue trivial

/-- The device at the start of `FS_Run`. -/
def start (fs : State) : Device := ⟨fs, ⟨[], false, false⟩, [], .wait, [], false⟩

/-- `Wait` has returned. -/
def woken (d : Device) : Device := d.wait.watched

/-- An iteration: from `Wait` through the steps `es`, which others may take part in, to the next `Wait` or to the end. -/
structure Iteration (d : Device) (es : List Event) (d' : Device) : Prop where
  wait : d.phase = .wait
  inside : Along (fun d _ => d.phase.Inside) step d.woken es
  runs : runs step d.woken es = some d'
  ended : ¬d'.phase.Inside

/-- Of the volumes whose bits `Wait` returns, none has messages but the first one on `fs_Vols`. -/
def OneWaits (d : Device) : Prop := ∀ v ∈ d.returned.vols, d.first d.returned ≠ some v → ¬d.fs.HasMessage v

instance (d : Device) : Decidable d.OneWaits := by unfold OneWaits; infer_instance

/-- The same where `Wait` returns in this step. -/
def OneAtWait (d : Device) : Event → Prop
  | .run .. => d.phase = .wait → d.OneWaits
  | _ => True

instance (d : Device) : (e : Event) → Decidable (d.OneAtWait e)
  | .run .. => by unfold OneAtWait; infer_instance
  | .arrive .. | .deliver _ | .brk | .poke .. => .isTrue trivial

/-- No packet waits at a port without a pending signal. -/
def Settled (d : Device) : Prop := ∀ m ∈ d.fs.msgs, m.1 ∈ d.signals.vols

instance (d : Device) : Decidable d.Settled := by unfold Settled; infer_instance

/-! ## What a step does to the ports -/

variable {d d' : Device} {e : Event}

/-- A step within a loop, or of the others: messages are added with their signals, and taken from the port that is
drained. -/
structure Stays (d d' : Device) : Prop where
  phase : d'.phase = d.phase
  unserved : d'.unserved = d.unserved
  unservedRemote : d'.unservedRemote = d.unservedRemote
  msgs : ∃ kept new, d'.fs.msgs = kept ++ new ∧ d'.signals.vols = d.signals.vols ++ new.map Prod.fst ∧
    kept ⊆ d.fs.msgs ∧ ∀ m ∈ d.fs.msgs, m ∈ kept ∨ ∃ sig, d.phase = .volume m.1 sig

/-- What an event can do. -/
inductive Turn (d : Device) (e : Event) (d' : Device) : Prop
  | waits (mems : List (Option Addr)) (lock : Option Addr) (m : State.Mounting) (run : e = .run mems lock m)
    (phase : d.phase = .wait) (eq : d' = d.wait)
  | stays (stays : Stays d d')
  | leaves (v : Addr) (sig : Signals) (phase : d.phase = .volume v sig) (none : ¬d.fs.HasMessage v)
    (eq : d' = { d with phase := .remote sig })
  | ends (sig : Signals) (phase : d.phase = .remote sig) (empty : sig.remote = true → d.inbox = [])
    (eq : d' = d.finish sig)

theorem does_spec {e : Fs.Event} (h : d.does e = some d') : ∃ new, d'.phase = d.phase ∧ d'.unserved = d.unserved ∧
    d'.unservedRemote = d.unservedRemote ∧ d'.fs.msgs = d.fs.kept e ++ new ∧
    d'.signals.vols = d.signals.vols ++ new.map Prod.fst := by
  obtain ⟨fs, hfs, rfl⟩ := Option.map_eq_some_iff.1 h
  obtain ⟨new, hnew⟩ := step_msgs hfs
  refine ⟨new, rfl, rfl, rfl, hnew.symm, ?_⟩
  dsimp only
  rw [← hnew, List.drop_left]

/-- A step of the client that takes no message from a volume. -/
theorem Stays.of_does {e : Fs.Event} (h : d.does e = some d') (hk : d.fs.kept e = d.fs.msgs) : Stays d d' := by
  obtain ⟨new, hp, hu, hr, hm, hs⟩ := does_spec h
  exact ⟨hp, hu, hr, _, new, hm, hs, hk ▸ List.Subset.refl _, fun m hmem => .inl (hk ▸ hmem)⟩

theorem Stays.of_dos {sig : Signals} (hp : d.phase = .volume v sig) (h : d.does (.dos v mems lock) = some d') :
    Stays d d' := by
  obtain ⟨new, hp', hu, hr, hm, hs⟩ := does_spec h
  refine ⟨hp', hu, hr, _, new, hm, hs, ?_, fun m hmem => ?_⟩
  · dsimp only [State.kept]
    cases d.fs.msgs.find? fun m => m.1 = v with
    | none => exact List.Subset.refl _
    | some m => exact List.erase_subset
  · dsimp only [State.kept]
    cases hf : d.fs.msgs.find? fun m => m.1 = v with
    | none => exact .inl hmem
    | some m' =>
      by_cases he : m = m'
      · have hv : m'.1 = v := by simpa using List.find?_some hf
        exact .inr ⟨sig, by rw [hp, he, hv]⟩
      · exact .inl ((List.mem_erase_of_ne he).2 hmem)

/-- Nothing happens at the ports of the volumes. -/
theorem Stays.of_eq (hp : d'.phase = d.phase) (hu : d'.unserved = d.unserved)
    (hr : d'.unservedRemote = d.unservedRemote) (hm : d'.fs.msgs = d.fs.msgs) (hs : d'.signals.vols = d.signals.vols) :
    Stays d d' :=
  ⟨hp, hu, hr, d.fs.msgs, [], by rw [hm, List.append_nil], by rw [hs, List.map_nil, List.append_nil],
    List.Subset.refl _, fun _ hmem => .inl hmem⟩

theorem receive_stays {msg : Message} {m : State.Mounting} (h : d.receive msg lock m = some d') : Stays d d' := by
  unfold receive at h
  split at h
  · exact .of_does h rfl
  · exact .of_does h rfl
  · exact .of_does h rfl
  · cases h
    exact .of_eq rfl rfl rfl rfl rfl

theorem run_turn {m : State.Mounting} (h : d.run mems lock m = some d') : Turn d (.run mems lock m) d' := by
  unfold run at h
  split at h
  case h_1 hp =>
    cases h
    exact .waits mems lock m rfl hp rfl
  case h_2 v sig hp =>
    split at h
    case isTrue => exact .stays (.of_dos hp h)
    case isFalse hn =>
      cases h
      exact .leaves v sig hp hn rfl
  case h_3 sig hp =>
    split at h
    case isTrue =>
      split at h
      case h_1 hi =>
        cases h
        exact .ends sig hp (fun _ => hi) rfl
      case h_2 msg inbox hi =>
        obtain ⟨hp', hu, hr, hm⟩ := receive_stays h
        exact .stays ⟨hp', hu, hr, hm⟩
    case isFalse hn =>
      cases h
      exact .ends sig hp (fun hs => absurd hs hn) rfl
  case h_4 => cases h

/-- **What an event does.** -/
theorem happen_turn (h : d.happen e = some d') : Turn d e d' := by
  cases e with
  | run mems lock m => exact run_turn h
  | arrive v p pkt => exact .stays (.of_does h rfl)
  | deliver msg =>
    cases h
    exact .stays (.of_eq rfl rfl rfl rfl rfl)
  | brk =>
    cases h
    exact .stays (.of_eq rfl rfl rfl rfl rfl)
  | poke mem locks => exact .stays (.of_does h rfl)

/-! ## One iteration -/

/-- What was signalled and has not been drained is being drained, or will be. -/
def Serves (d : Device) : Prop :=
  match d.phase with
  | .volume v sig => (∀ w ∈ d.unserved, w = v) ∧ (d.unservedRemote = true → sig.remote = true)
  | .remote sig => d.unserved = [] ∧ (d.unservedRemote = true → sig.remote = true)
  | .wait | .stopping => d.unserved = [] ∧ d.unservedRemote = false

theorem finish_phase (d : Device) (sig : Signals) :
    (d.finish sig).phase = .wait ∨ (d.finish sig).phase = .stopping := by
  unfold finish
  dsimp only
  split
  · exact .inr rfl
  · exact .inl rfl

/-- Ports that have been drained need no more. -/
theorem Serves.less (h : d.Serves) (hp : d'.phase = d.phase) (hu : d'.unserved ⊆ d.unserved)
    (hr : d'.unservedRemote = true → d.unservedRemote = true) : d'.Serves := by
  unfold Serves at h ⊢
  rw [hp]
  cases hph : d.phase with
  | volume v sig =>
    rw [hph] at h
    exact ⟨fun w hw => h.1 w (hu hw), fun ht => h.2 (hr ht)⟩
  | remote sig =>
    rw [hph] at h
    exact ⟨List.subset_nil.1 (h.1 ▸ hu), fun ht => h.2 (hr ht)⟩
  | wait | stopping =>
    rw [hph] at h
    refine ⟨List.subset_nil.1 (h.1 ▸ hu), Bool.eq_false_iff.2 fun ht => ?_⟩
    exact absurd ((hr ht).symm.trans h.2) (by decide)

theorem mem_watched {d : Device} : v ∈ d.watched.unserved ↔ v ∈ d.unserved ∧ d.fs.HasMessage v := by
  unfold watched
  rw [List.mem_filter, decide_eq_true_eq]

theorem watched_remote (h : d.watched.unservedRemote = true) : d.unservedRemote = true ∧ d.inbox ≠ [] := by
  unfold watched at h
  dsimp only at h
  rw [Bool.and_eq_true] at h
  refine ⟨h.1, fun he => ?_⟩
  rw [he] at h
  exact absurd h.2 (by decide)

theorem Serves.watched (h : d.Serves) : d.watched.Serves :=
  h.less rfl (fun _ hw => (mem_watched.1 hw).1) fun ht => (watched_remote ht).1

theorem Serves.turn (h : d.Serves) (hin : d.phase.Inside) (ht : Turn d e d') : d'.watched.Serves := by
  cases ht with
  | waits mems lock m _ hp =>
    rw [hp] at hin
    exact hin.elim
  | stays hs => exact (h.less hs.phase (hs.unserved ▸ List.Subset.refl _) fun ht => hs.unservedRemote ▸ ht).watched
  | leaves v sig hp hn he =>
    unfold Serves at h
    rw [hp] at h
    subst he
    refine ⟨List.eq_nil_iff_forall_not_mem.2 fun w hw => ?_, fun ht => h.2 (watched_remote ht).1⟩
    obtain ⟨hw, hm⟩ := mem_watched.1 hw
    rw [h.1 w hw] at hm
    exact hn hm
  | ends sig hp hi he =>
    unfold Serves at h
    rw [hp] at h
    subst he
    have hu : (d.finish sig).watched.unserved = [] := by
      refine List.eq_nil_iff_forall_not_mem.2 fun w hw => ?_
      have hw : w ∈ d.unserved := (mem_watched.1 hw).1
      rw [h.1] at hw
      exact List.not_mem_nil hw
    have hr : (d.finish sig).watched.unservedRemote = false := by
      refine Bool.eq_false_iff.2 fun ht => ?_
      obtain ⟨ht, hne⟩ := watched_remote ht
      exact hne (hi (h.2 ht))
    have hph : (d.finish sig).watched.phase = (d.finish sig).phase := rfl
    unfold Serves
    rcases d.finish_phase sig with hf | hf
    · rw [hph, hf]
      exact ⟨hu, hr⟩
    · rw [hph, hf]
      exact ⟨hu, hr⟩

/-- **If only one of the volumes waits, all are served.** -/
theorem serves_woken (h : d.OneWaits) : d.woken.Serves := by
  have hone : ∀ w ∈ d.woken.unserved, d.first d.returned = some w := by
    intro w hw
    obtain ⟨hw, hm⟩ := mem_watched.1 hw
    by_contra hne
    exact h w hw hne hm
  have hr : d.woken.unservedRemote = true → d.returned.remote = true := fun ht => (watched_remote ht).1
  have hph : d.woken.phase = match d.first d.returned with
      | some v => .volume v d.returned
      | none => .remote d.returned := rfl
  unfold Serves
  rw [hph]
  cases hf : d.first d.returned with
  | some v =>
    refine ⟨fun w hw => ?_, hr⟩
    exact (Option.some.inj (hf.symm.trans (hone w hw))).symm
  | none =>
    refine ⟨List.eq_nil_iff_forall_not_mem.2 fun w hw => ?_, hr⟩
    cases hf.symm.trans (hone w hw)

/-- A volume was signalled and is not drained. -/
structure Left (v : Addr) (d : Device) : Prop where
  unserved : v ∈ d.unserved
  waits : d.fs.HasMessage v
  elsewhere : ∀ sig, d.phase ≠ .volume v sig

theorem Left.turn (h : Left v d) (hin : d.phase.Inside) (ht : Turn d e d') : Left v d'.watched := by
  have key : v ∈ d'.unserved → d'.fs.HasMessage v → (∀ sig, d'.phase ≠ .volume v sig) → Left v d'.watched :=
    fun hu hm he => ⟨mem_watched.2 ⟨hu, hm⟩, hm, he⟩
  cases ht with
  | waits mems lock m _ hp =>
    rw [hp] at hin
    exact hin.elim
  | stays hs =>
    obtain ⟨kept, new, hmsgs, -, -, hk⟩ := hs.msgs
    obtain ⟨m, hm, rfl⟩ := h.waits
    refine key (hs.unserved ▸ h.unserved) ⟨m, ?_, rfl⟩ (hs.phase ▸ h.elsewhere)
    rw [hmsgs]
    refine List.mem_append_left _ ((hk m hm).resolve_right ?_)
    rintro ⟨sig, hp⟩
    exact h.elsewhere sig hp
  | leaves w sig hp hn he =>
    subst he
    exact key h.unserved h.waits fun sig' hp' => by cases hp'
  | ends sig hp hi he =>
    subst he
    refine key h.unserved h.waits fun sig' hp' => ?_
    rcases d.finish_phase sig with hf | hf <;> cases hf.symm.trans hp'

theorem left_woken (hv : v ∈ d.returned.vols) (hne : d.first d.returned ≠ some v) (hm : d.fs.HasMessage v) :
    Left v d.woken := by
  refine ⟨mem_watched.2 ⟨hv, hm⟩, hm, fun sig hp => hne ?_⟩
  change (match d.first d.returned with
    | some v => Phase.volume v d.returned
    | none => .remote d.returned) = .volume v sig at hp
  cases hf : d.first d.returned with
  | some w =>
    rw [hf] at hp
    cases hp
    rfl
  | none =>
    rw [hf] at hp
    cases hp

theorem step_turn (h : step d e = some d') : ∃ d₁, Turn d e d₁ ∧ d' = d₁.watched := by
  obtain ⟨d₁, h₁, rfl⟩ := Option.map_eq_some_iff.1 h
  exact ⟨d₁, happen_turn h₁, rfl⟩

/-- An iteration begins with a step. -/
theorem step_wait {m : State.Mounting} (h : d.phase = .wait) : step d (.run mems lock m) = some d.woken := by
  unfold step happen run
  rw [h]
  rfl

/-- An iteration keeps what its steps keep. -/
theorem Iteration.inv {es : List Event} (h : Iteration d es d') {I : Device → Prop} (hw : I d.woken)
    (hturn : ∀ {x y : Device} {e : Event}, I x → x.phase.Inside → Turn x e y → I y.watched) : I d' := by
  refine runs_inv I (fun x e y hx hin hs => ?_) hw h.inside h.runs
  obtain ⟨y, ht, rfl⟩ := step_turn hs
  exact hturn hx hin ht

/-- **An iteration serves all that was signalled, if and only if one volume waits.** -/
theorem iteration_serves {es : List Event} (h : Iteration d es d') :
    d'.unserved = [] ∧ d'.unservedRemote = false ↔ d.OneWaits := by
  constructor
  · rintro ⟨hu, -⟩ v hv hne hm
    have hl : Left v d' := h.inv (left_woken hv hne hm) Left.turn
    have hmem := hl.unserved
    rw [hu] at hmem
    exact List.not_mem_nil hmem
  · intro hone
    have hs : d'.Serves := h.inv (serves_woken hone) Serves.turn
    have hend := h.ended
    unfold Serves at hs
    cases hp : d'.phase with
    | wait | stopping =>
      rw [hp] at hs
      exact hs
    | volume v sig => exact absurd (hp ▸ trivial) hend
    | remote sig => exact absurd (hp ▸ trivial) hend

/-! ## Whole runs -/

/-- A packet that waits has a pending signal, or its port is being drained. -/
def Tracked (d : Device) : Prop := ∀ m ∈ d.fs.msgs, m.1 ∈ d.signals.vols ∨ ∃ sig, d.phase = .volume m.1 sig

theorem Tracked.settled (h : d.Tracked) (hp : ¬d.phase.Inside) : d.Settled := by
  intro m hm
  refine (h m hm).resolve_right ?_
  rintro ⟨sig, he⟩
  rw [he] at hp
  exact hp trivial

theorem Tracked.wait (h : d.Tracked) (hp : d.phase = .wait) (hone : d.OneWaits) : d.wait.Tracked := by
  intro m hm
  have hs : m.1 ∈ d.signals.vols := by
    refine (h m hm).resolve_right ?_
    rintro ⟨sig, he⟩
    cases hp.symm.trans he
  by_cases hv : m.1 ∈ d.fs.volList
  · have hret : m.1 ∈ d.returned.vols := List.mem_filter.2 ⟨hs, decide_eq_true hv⟩
    have hf : d.first d.returned = some m.1 := by
      by_contra hne
      exact hone m.1 hret hne ⟨m, hm, rfl⟩
    refine .inr ⟨d.returned, ?_⟩
    unfold Device.wait
    dsimp only
    rw [hf]
  · exact .inl (List.mem_filter.2 ⟨hs, decide_eq_true hv⟩)

theorem Tracked.turn (h : d.Tracked) (hone : d.OneAtWait e) (ht : Turn d e d') : d'.watched.Tracked := by
  cases ht with
  | waits mems lock m he hp heq =>
    subst he heq
    exact h.wait hp (hone hp)
  | stays hs =>
    obtain ⟨kept, new, hmsgs, hsig, hsub, -⟩ := hs.msgs
    intro m hm
    change m ∈ d'.fs.msgs at hm
    change m.1 ∈ d'.signals.vols ∨ ∃ sig, d'.phase = .volume m.1 sig
    rw [hmsgs] at hm
    rw [hsig, hs.phase]
    rcases List.mem_append.1 hm with hm | hm
    · exact (h m (hsub hm)).imp_left (List.mem_append_left _)
    · exact .inl (List.mem_append_right _ (List.mem_map_of_mem hm))
  | leaves v sig hp hn he =>
    subst he
    intro m hm
    refine .inl ((h m hm).resolve_right ?_)
    rintro ⟨sig', hp'⟩
    cases hp.symm.trans hp'
    exact hn ⟨m, hm, rfl⟩
  | ends sig hp _ he =>
    subst he
    intro m hm
    refine .inl ((h m hm).resolve_right ?_)
    rintro ⟨sig', hp'⟩
    cases hp.symm.trans hp'

/-- **No packet is forgotten**: it waits at `Wait` with a pending signal. -/
theorem runs_settled {es : List Event} (hs : d.Settled) (ha : Along OneAtWait step d es)
    (h : runs step d es = some d') (hp : ¬d'.phase.Inside) : d'.Settled := by
  refine Tracked.settled (runs_inv Tracked (fun x e y hx hone hstep => ?_) ?_ ha h) hp
  · obtain ⟨z, ht, rfl⟩ := step_turn hstep
    exact hx.turn hone ht
  · exact fun m hm => .inl (hs m hm)

theorem settled_start {fs : State} (h : fs.msgs = []) : (start fs).Settled := by
  intro m hm
  change m ∈ fs.msgs at hm
  rw [h] at hm
  exact (List.not_mem_nil hm).elim

/-- **Which iterations serve every port that was signalled**, and what comes of it in whole runs. -/
theorem signalled_served (d d' : Device) (es : List Event) :
    (Iteration d es d' → (d'.unserved = [] ∧ d'.unservedRemote = false ↔ d.OneWaits)) ∧
    (d.Settled → Along OneAtWait step d es → runs step d es = some d' → ¬d'.phase.Inside → d'.Settled) :=
  ⟨iteration_serves, runs_settled⟩

/-- The client goes on, and nothing is allocated. -/
def goOn : Event := .run [] none noMounting

/-- The handler asks to mount a volume, which is put at the address `v`. -/
def mounts (res1 : UInt32) (v entry : Addr) : List Event :=
  [.deliver (.reader ⟨mountVolumeKey, res1, 0, fun _ => 0⟩), goOn,
    .run [] none ⟨some v, true, true, some entry, true, false⟩, goOn]

/-- A packet that is replied to at once. -/
def isFilesystemPkt : DosPacket := ⟨.dos 0, .isFilesystem, 0, 0, 0, 0, 0, 0⟩

/-- Two volumes are mounted, and one of them gets a packet. -/
def onePacket : List Event :=
  mounts 0x10000 4096 8192 ++ mounts 0x20000 12288 16384 ++ [.arrive 12288 1 isFilesystemPkt]

theorem signalled_served_one : ∃ d d', runs step (start blank) onePacket = some d ∧
    Iteration d [goOn, goOn, goOn] d' ∧ (d'.unserved = [] ∧ d'.unservedRemote = false) ∧ d'.Settled := by
  have h : (runs step (start blank) onePacket).map (fun d => (decide (d.phase = .wait), decide d.OneWaits,
      decide (Along (fun d _ => d.phase.Inside) step d.woken [goOn, goOn, goOn]),
      (runs step d.woken [goOn, goOn, goOn]).map fun d' => decide d'.phase.Inside)) =
      some (true, true, true, some false) := by
    decide +kernel
  obtain ⟨d, hd, he⟩ := Option.map_eq_some_iff.1 h
  simp only [Prod.mk.injEq, decide_eq_true_eq] at he
  obtain ⟨hw, hone, hin, he⟩ := he
  obtain ⟨d', hr, hend⟩ := Option.map_eq_some_iff.1 he
  have hit : Iteration d [goOn, goOn, goOn] d' := ⟨hw, hin, hr, of_decide_eq_false hend⟩
  have hrun : runs step (start blank) (onePacket ++ [goOn, goOn, goOn, goOn]) = some d' := by
    have hstep : step d goOn = some d.woken := step_wait hw
    rw [runs_append, hd, Option.bind_some, runs_cons hstep]
    exact hr
  have ha : Along OneAtWait step (start blank) (onePacket ++ [goOn, goOn, goOn, goOn]) := by decide +kernel
  exact ⟨d, d', hd, hit, ((signalled_served d d' _).1 hit).2 hone,
    (signalled_served (start blank) d' _).2 (settled_start rfl) ha hrun hit.ended⟩

/-- Two volumes get a packet each before `Wait` returns. -/
def twoPackets : List Event :=
  mounts 0x10000 4096 8192 ++ mounts 0x20000 12288 16384 ++
    [.arrive 4096 1 isFilesystemPkt, .arrive 12288 2 isFilesystemPkt, goOn, goOn, goOn, goOn]

theorem volume_forgotten : Along Legal step (start blank) twoPackets ∧
    ∃ d, runs step (start blank) twoPackets = some d ∧ ¬d.phase.Inside ∧ d.unserved = [12288] ∧ ¬d.Settled := by
  refine ⟨by decide +kernel, ?_⟩
  have h : (runs step (start blank) twoPackets).map (fun d => (decide d.phase.Inside, d.unserved, decide d.Settled)) =
      some (false, [12288], false) := by
    decide +kernel
  obtain ⟨d, hd, he⟩ := Option.map_eq_some_iff.1 h
  rw [Prod.mk.injEq, Prod.mk.injEq, decide_eq_false_iff_not, decide_eq_false_iff_not] at he
  exact ⟨d, hd, he⟩

end Device

end AmiPiBorg.Fs
