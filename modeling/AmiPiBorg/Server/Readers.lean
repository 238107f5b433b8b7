import AmiPiBorg.Server.Reads
import AmiPiBorg.Server.Streams

/-!
# Data next to a reader, and what is delivered as data

Two things that `APB_HandleConnectionPacket` gets wrong. A `PT_CONNECTED` does not look at the queues, so data that came
before it can wait next to a read; the queues are matched in every run in which that packet finds them so
(`no_data_stuck`). And every packet whose type it does not name is queued as data: only data is delivered, and errors
leave no connection open, in runs in which no other packet comes to a connection that is not being closed
(`only_data_delivered`).
-/

set_option autoImplicit false

namespace AmiPiBorg.Server

open ProgLib

variable {env : Env} {s s' : Server} {c c' : Connection} {ip : InPac} {e : Event} {es : List Event}
  {reqs out rest : List Request} {state : RequestState} {act : Act}

/-! ## Data next to a reader -/

/-- There is no data, or there is no read. -/
def Unstuck (c : Connection) : Prop := c.packetQueue = [] ∨ ∀ r ∈ c.reqQueue, r.type ≠ rtRead

/-- The queues of the connection are matched. -/
def Matched (c : Connection) : Prop := c.state = csConnected → Unstuck c

instance (c : Connection) : Decidable (Unstuck c) := inferInstanceAs (Decidable (_ ∨ ∀ _ ∈ _, _))
instance (c : Connection) : Decidable (Matched c) := inferInstanceAs (Decidable (_ → _))

/-- A `PT_CONNECTED` finds the queues of its connection matched already. -/
def ConnectsUnstuck (s : Server) : Event → Prop
  | .packet _ pac => pac.type = ptConnected → ∀ c ∈ s.target pac.connId, Unstuck c
  | _ => True

theorem takeRequest_type {type : UInt16} {r : Request} (h : takeRequest type reqs = some (r, rest)) :
    r.type = type := by
  induction reqs generalizing rest with
  | nil => cases h
  | cons q reqs ih =>
    unfold takeRequest at h
    split at h
    · next ht =>
      cases h
      exact ht
    · obtain ⟨⟨r', rest'⟩, h₁, h₂⟩ := Option.map_eq_some_iff.1 h
      cases h₂
      exact ih h₁

/-- The reads stay where they are when a request to open is answered. -/
theorem Answers.reads (h : Answers state reqs out rest) :
    (∀ r ∈ rest, r.type ≠ rtRead) ↔ ∀ r ∈ reqs, r.type ≠ rtRead := by
  rcases h with ⟨-, -, rfl⟩ | ⟨q, h, -⟩
  · exact Iff.rfl
  · have hne : q.type ≠ rtRead := by
      rw [takeRequest_type h]
      decide
    simp only [(takeRequest_perm h).mem_iff, List.forall_mem_cons, hne, ne_eq, not_false_eq_true, true_and]

theorem push_matched (c : Connection) : Matched (push c).2 := by
  intro hs
  rw [push_state] at hs
  unfold push
  rw [if_neg (by simpa using hs)]
  rcases deliver_exhausts c.packetQueue c.reqQueue with h | h
  · exact .inl h
  · right
    intro r hr
    rw [h] at hr
    cases hr

/-- **Every move leaves the queues matched**, but for the one that connects. -/
theorem Move.matched (m : Move c act out c') (h : Matched c)
    (hc : ∀ ip, act = .packet ip → ip.pac.type = ptConnected → Unstuck c) : Matched c' := by
  cases m with
  | @connected ip _ rs ht ha =>
    intro _
    exact (hc ip rfl ht).imp_right ha.reads.2
  | noHandler _ _ =>
    intro hs
    exact absurd hs (show ¬csNoHandler = csConnected by decide)
  | dropped _ _ => exact h
  | queued _ _ => exact push_matched _
  | @opened req st ht hst =>
    rintro (hs : st = csConnected)
    rcases hst with rfl | rfl
    · refine (h hs).imp_right fun hn r hr => ?_
      rcases List.mem_append.1 hr with hr | hr
      · exact hn r hr
      · rw [List.mem_singleton.1 hr]
        intro hread
        exact absurd (ht.symm.trans hread) (by decide)
    · exact absurd hs (by decide)
  | read _ _ => exact push_matched _
  | @answered req r st _ _ _ hst =>
    rintro (hs : st = csConnected)
    rcases hst with rfl | ⟨-, rfl⟩
    · exact h hs
    · exact absurd hs (by decide)
  | tick =>
    intro hs
    refine (h hs).imp_right fun hn r hr => ?_
    obtain ⟨q, hq, n, rfl, -⟩ := tickRequests_left hr
    exact hn q hq

/-- What holds between the events. -/
structure Fed (s : Server) : Prop where
  distinct : s.Distinct
  matched : ∀ c ∈ s.connections, Matched c

theorem Fed.step (h : s.Fed) (hc : s.ConnectsUnstuck e) (he : Server.step env s e = some s') : s'.Fed := by
  refine ⟨(booked_step h.distinct he).distinct, ?_⟩
  have hh : Holds Matched (fun _ => True) s := ⟨h.matched, fun _ _ => trivial⟩
  refine (hh.step h.distinct (fun c hp _ _ => .inl hp) (fun _ _ => trivial) (fun c act out c' hI hcomes m => ?_) he).1
  refine ⟨m.matched hI fun ip hip ht => ?_, fun _ _ => trivial⟩
  subst hip
  obtain ⟨seq, pac, rfl, rfl, htarget⟩ := hcomes
  exact hc ht c htarget

/-- A connection that is told that it is connected is matched afterwards only if it was before. -/
theorem unstuck_of_matched (d : s.Distinct) (he : Server.step env s e = some s')
    (hm : ∀ c ∈ s'.connections, Matched c) : s.ConnectsUnstuck e := by
  cases e with
  | packet seq pac =>
    intro ht c hc
    have d' : ({ s with dequeued := s.dequeued + 1 } : Server).Distinct := d.congr rfl (Nat.le_refl _)
    cases he
    have hmoved := handlePacket_moved_of env d' (show target _ (InPac.pac ⟨s.dequeued, seq, pac⟩).connId = some c from hc)
    generalize Server.handlePacket env { s with dequeued := s.dequeued + 1 } ⟨s.dequeued, seq, pac⟩ = t at hm hmoved
    rcases hmoved with ⟨out, c', m, -, hput⟩ | hdis
    · have hmem : c' ∈ t.connections := by
        rw [hput]
        exact Keyed.mem_put_self (mem_of_target hc) m.num.symm
      have hc' := hm c' hmem
      cases m with
      | connected _ ha => exact (hc' rfl).imp_right ha.reads.1
      | noHandler hn _ => exact absurd (ht.symm.trans hn) (by decide)
      | dropped hn _ => exact absurd (.inl ht) hn
      | queued hn _ => exact absurd (.inl ht) hn
    · exact absurd (ht.symm.trans hdis) (by decide)
  | _ => trivial

/-- **No data is stuck next to a reader** after any step of a run, if and only if every `PT_CONNECTED` finds the queues of
its connection matched. -/
theorem no_data_stuck (env : Env) (es : List Event) :
    Along (fun s e => ∀ s', step env s e = some s' → ∀ c ∈ s'.connections, Matched c) (step env) start es ↔
      Along ConnectsUnstuck (step env) start es := by
  have hstart : start.Fed := ⟨distinct_start, fun _ h => by cases h⟩
  have hall : Along (fun _ _ => True) (step env) start es := along_of_forall (fun _ _ => trivial) es start
  refine along_iff Fed (fun s e hI _ => ⟨fun h => ?_, fun h s' he => (hI.step h he).matched⟩)
    (fun s e s' hI _ hc he => hI.step hc he) hstart hall
  cases he : step env s e with
  | none =>
    cases e with
    | packet seq pac => cases he
    | _ => trivial
  | some s' => exact unstuck_of_matched hI.distinct he (h s' he)

/-- Data, and a read, come before the Pi says that the connection is open. -/
def connectedLate : List Event :=
  greeting ++ pass [ask rtOpen 0] [] ++ pass [ask rtRead 1] [dataPac 2 0 1, bare 3 ptConnected 1]

theorem data_stuck : Along Enabled (step plenty) start connectedLate ∧
    ∃ x : Server, runs (step plenty) start connectedLate = some x ∧ ¬∀ c ∈ x.connections, Matched c := by
  refine ⟨by decide +kernel, ?_⟩
  have h : (runs (step plenty) start connectedLate).map (fun x => decide (∀ c ∈ x.connections, Matched c)) =
      some false := by
    decide +kernel
  obtain ⟨x, hx, he⟩ := Option.map_eq_some_iff.1 h
  exact ⟨x, hx, of_decide_eq_false he⟩

/-! ## What is delivered as data -/

/-- The packets of a run. -/
def arrived (es : List Event) : List Incoming :=
  es.filterMap fun e => match e with
    | .packet _ pac => some pac
    | _ => none

/-- A packet for a connection that is not being closed is data, or of a type that is named. -/
def DataArrives (s : Server) : Event → Prop
  | .packet _ pac => ∀ c ∈ s.target pac.connId, c.state < csDisconnecting → pac.type = ptData ∨ NamedType pac.type
  | _ => True

instance (s : Server) : (e : Event) → Decidable (DataArrives s e)
  | .run _ => .isTrue trivial
  | .wake _ => .isTrue trivial
  | .timer _ => .isTrue trivial
  | .request _ => .isTrue trivial
  | .requestsDone => .isTrue trivial
  | .packet .. => by
    unfold DataArrives NamedType
    infer_instance
  | .packetsDone => .isTrue trivial

/-- The request carries data that came for its connection. -/
def CarriesData (es : List Event) (r : Request) : Prop :=
  ∃ pac ∈ arrived es, pac.type = ptData ∧ pac.connId = r.connId ∧ r.data = pac.data

/-- What waits on a connection is its data, and requests to it. -/
structure Carries (es : List Event) (c : Connection) : Prop where
  packet : ∀ ip ∈ c.packetQueue, ip.pac ∈ arrived es ∧ ip.pac.type = ptData ∧ ip.pac.connId = c.id
  request : ∀ r ∈ c.reqQueue, r.connId = c.id

/-- The requests that are completed carry one of the packets. -/
theorem deliver_data (ips : List InPac) (rs : List Request) : ∀ r ∈ (deliver ips rs).replied,
    r.state = .bufferTooSmall ∨ ∃ ip ∈ ips, r.data = ip.pac.data := by
  fun_induction deliver ips rs with
  | case1 ips => exact fun r hr => absurd hr List.not_mem_nil
  | case2 rs => exact fun r hr => absurd hr List.not_mem_nil
  | case3 ip ips q rs toCopy hlt d ih => exact List.forall_mem_cons.2 ⟨.inl rfl, ih⟩
  | case4 ip ips q rs toCopy hle d ih =>
    refine List.forall_mem_cons.2 ⟨.inr ⟨ip, List.mem_cons_self, rfl⟩, fun r hr => (ih r hr).imp_right ?_⟩
    rintro ⟨ip', hip, hd⟩
    exact ⟨ip', List.mem_cons_of_mem _ hip, hd⟩

theorem Carries.push (h : Carries es c) :
    Carries es (push c).2 ∧ ∀ r ∈ (push c).1, r.state = .ok → CarriesData es r := by
  unfold Server.push
  split
  · exact ⟨h, fun r hr => by cases hr⟩
  · refine ⟨⟨fun ip hip => h.packet ip ((deliver_suffix _ _).subset hip),
      fun r hr => h.request r ((deliver_requests _ _).subset hr)⟩, fun r hr ho => ?_⟩
    obtain ⟨q, hq, hc⟩ := deliver_mem Request.connId (fun _ _ _ _ => rfl) hr
    obtain hs | ⟨ip, hip, hd⟩ := deliver_data _ _ r hr
    · exact absurd (ho.symm.trans hs) (by decide)
    · obtain ⟨ha, ht, hid⟩ := h.packet ip hip
      exact ⟨ip.pac, ha, ht, hid.trans ((h.request q hq).symm.trans hc), hd⟩

theorem Answers.subset (h : Answers state reqs out rest) : rest ⊆ reqs := by
  rcases h with ⟨-, -, rfl⟩ | ⟨q, h, -⟩
  · exact List.Subset.refl _
  · intro r hr
    exact (takeRequest_perm h).mem_iff.2 (List.mem_cons_of_mem _ hr)

/-- What is answered is no read. -/
theorem Answers.not_read (h : Answers state reqs out rest) : ∀ r ∈ out, r.type ≠ rtRead := by
  rcases h with ⟨-, rfl, -⟩ | ⟨q, h, rfl⟩
  · intro r hr
    cases hr
  · intro r hr
    rw [List.mem_singleton.1 hr]
    show q.type ≠ rtRead
    rw [takeRequest_type h]
    decide

/-- A request that comes to the connection is one of its requests. -/
theorem Carries.received (h : Carries es c) (req : Request) : ∀ r ∈ c.reqQueue ++ [received c req], r.connId = c.id := by
  intro r hr
  rcases List.mem_append.1 hr with hr | hr
  · exact h.request r hr
  · rw [List.mem_singleton.1 hr]
    rfl

/-- **Every move delivers data only**, if that is what comes. -/
theorem Move.carries (m : Move c act out c') (h : Carries es c)
    (ha : ∀ ip, act = .packet ip → ip.pac ∈ arrived es ∧ ip.pac.connId = c.id ∧
      (c.state < csDisconnecting → ip.pac.type = ptData ∨ NamedType ip.pac.type)) :
    Carries es c' ∧ ∀ r ∈ out, r.type = rtRead → r.state = .ok → CarriesData es r := by
  cases m with
  | connected _ han =>
    exact ⟨⟨h.packet, fun r hr => h.request r (han.subset hr)⟩, fun r hr ht => absurd ht (han.not_read r hr)⟩
  | noHandler _ han =>
    exact ⟨⟨h.packet, fun r hr => h.request r (han.subset hr)⟩, fun r hr ht => absurd ht (han.not_read r hr)⟩
  | dropped _ _ => exact ⟨h, fun r hr => by cases hr⟩
  | @queued ip hn hs =>
    obtain ⟨hm, hid, ht⟩ := ha ip rfl
    have hq : Carries es { c with packetQueue := c.packetQueue ++ [ip] } := by
      refine ⟨fun q hq => ?_, h.request⟩
      rcases List.mem_append.1 hq with hq | hq
      · exact h.packet q hq
      · rw [List.mem_singleton.1 hq]
        exact ⟨hm, (ht hs).resolve_right hn, hid⟩
    exact ⟨hq.push.1, fun r hr _ => hq.push.2 r hr⟩
  | @opened req st _ _ => exact ⟨⟨h.packet, h.received req⟩, fun r hr => by cases hr⟩
  | @read req _ _ =>
    have hq : Carries es { c with reqQueue := c.reqQueue ++ [Server.received c req] } := ⟨h.packet, h.received req⟩
    exact ⟨hq.push.1, fun r hr _ => hq.push.2 r hr⟩
  | @answered req r st _ _ hr _ =>
    refine ⟨⟨h.packet, h.request⟩, fun q hq ht ho => ?_⟩
    rw [List.mem_singleton.1 hq] at ht ho
    exact absurd ho (hr ht).1
  | tick =>
    refine ⟨⟨h.packet, fun r hr => ?_⟩, fun r hr _ ho => ?_⟩
    · obtain ⟨q, hq, n, rfl, -⟩ := tickRequests_left hr
      exact h.request q hq
    · exact absurd (ho.symm.trans (tickRequests_state hr)) (by decide)

/-- What holds between the events of the run `es`. -/
structure Plain (es : List Event) (s : Server) : Prop where
  distinct : s.Distinct
  holds : Holds (Carries es) (fun r => r.type = rtRead → r.state = .ok → CarriesData es r) s

theorem id_of_target {id : UInt16} (h : s.target id = some c) : c.id = id := by
  unfold target at h
  split at h
  · cases h
  · simpa [findConnection] using List.find?_some h

theorem Plain.step (h : Plain es s) (hd : s.DataArrives e) (hm : e ∈ es) (he : Server.step env s e = some s') :
    Plain es s' := by
  refine ⟨(booked_step h.distinct he).distinct, ?_⟩
  refine h.holds.step h.distinct (fun c hp hr => ⟨?_, ?_⟩) (fun r hr ht ho => absurd ho (hr ht))
    (fun c act out c' hI hcomes m => m.carries hI fun ip hip => ?_) he
  · rw [hp]
    intro ip hip
    cases hip
  · rw [hr]
    intro r hr
    cases hr
  · subst hip
    obtain ⟨seq, pac, rfl, rfl, htarget⟩ := hcomes
    exact ⟨List.mem_filterMap.2 ⟨_, hm, rfl⟩, (id_of_target htarget).symm, hd c htarget⟩

/-- A packet with an error is dropped. -/
theorem error_dropped (d : s.Distinct) {seq : Nat} {pac : Incoming}
    (ht : pac.type = ptError ∨ pac.type = ptNoConnection) (hd : s.DataArrives (.packet seq pac))
    (hc : s.target pac.connId = some c) : ∃ s', Server.step env s (.packet seq pac) = some s' ∧
      s'.replied = s.replied ∧ ∀ c' ∈ s'.connections, c'.num = c.num → c'.state ≠ csConnected := by
  have hne : pac.type ≠ ptData ∧ ¬NamedType pac.type := by
    rcases ht with h | h
    · rw [h]
      exact ⟨by decide, by unfold NamedType; decide⟩
    · rw [h]
      exact ⟨by decide, by unfold NamedType; decide⟩
  have hst : csDisconnecting ≤ c.state := by
    by_contra hlt
    exact (hd c hc (UInt16.not_le.1 hlt)).elim hne.1 hne.2
  have d' : ({ s with dequeued := s.dequeued + 1 } : Server).Distinct := d.congr rfl (Nat.le_refl _)
  refine ⟨_, rfl, ?_⟩
  have hmoved := handlePacket_moved_of env d' (show target _ (InPac.pac ⟨s.dequeued, seq, pac⟩).connId = some c from hc)
  rcases hmoved with ⟨out, c', m, hrep, hput⟩ | hdis
  · cases m with
    | connected h _ => exact absurd (.inl h) hne.2
    | noHandler h _ => exact absurd (.inr (.inr h)) hne.2
    | dropped _ _ =>
      refine ⟨hrep.trans (List.append_nil _), fun c' hc' hnum hs => ?_⟩
      rw [hput] at hc'
      rcases Keyed.mem_put hc' with rfl | ⟨-, hne'⟩
      · rw [hs] at hst
        exact absurd hst (by decide)
      · exact hne' hnum
    | queued _ hlt => exact absurd hst (UInt16.not_le.2 hlt)
  · exact absurd (.inr (.inl hdis)) hne.2

/-- The client reads, and the Pi answers that it does not know the connection. -/
def unknownWhileReading : List Event :=
  greeting ++ pass [ask rtOpen 0] [bare 2 ptConnected 1] ++ pass [ask rtRead 1] [bare 3 ptNoConnection 1]

theorem error_delivered : Along Enabled (step plenty) start unknownWhileReading ∧
    ∃ x : Server, runs (step plenty) start unknownWhileReading = some x ∧
      (∃ r ∈ x.replied, r.type = rtRead ∧ r.state = .ok ∧ ¬CarriesData unknownWhileReading r) ∧
      ∃ c ∈ x.connections, c.id = 1 ∧ c.state = csConnected := by
  refine ⟨by decide +kernel, ?_⟩
  have h : (runs (step plenty) start unknownWhileReading).map (fun x =>
      (decide (∃ r ∈ x.replied, r.type = rtRead ∧ r.state = .ok),
        decide (∃ c ∈ x.connections, c.id = 1 ∧ c.state = csConnected))) = some (true, true) := by
    decide +kernel
  obtain ⟨x, hx, he⟩ := Option.map_eq_some_iff.1 h
  rw [Prod.mk.injEq] at he
  obtain ⟨r, hr, ht, ho⟩ := of_decide_eq_true he.1
  refine ⟨x, hx, ⟨r, hr, ht, ho, ?_⟩, of_decide_eq_true he.2⟩
  -- no data came at all
  rintro ⟨pac, hpac, hd, -⟩
  have hn : ∀ p ∈ arrived unknownWhileReading, p.type ≠ ptData := by decide +kernel
  exact hn pac hpac hd

/-- **Only data is delivered as data**, in every run in which no other packet is queued: a read that is completed carries
the data of a packet that came for its connection; and a packet with an error completes no read and leaves its
connection not connected. -/
theorem only_data_delivered (env : Env) {es : List Event} {x : Server} (h : Along DataArrives (step env) start es)
    (hx : runs (step env) start es = some x) :
    (∀ r ∈ x.replied, r.type = rtRead → r.state = .ok → CarriesData es r) ∧
      ∀ (seq : Nat) (pac : Incoming) (c : Connection), pac.type = ptError ∨ pac.type = ptNoConnection →
        x.DataArrives (.packet seq pac) → x.target pac.connId = some c → ∃ x', step env x (.packet seq pac) = some x' ∧
          x'.replied = x.replied ∧ ∀ c' ∈ x'.connections, c'.num = c.num → c'.state ≠ csConnected := by
  have hstart : Plain es start := ⟨distinct_start, fun _ h => (by cases h), fun _ h => by cases h⟩
  have ha : Along (fun s e => DataArrives s e ∧ e ∈ es) (step env) start es := along_and h fun _ he => he
  have hI : Plain es x := runs_inv (Plain es) (fun _ _ _ hI ho he => hI.step ho.1 ho.2 he) hstart ha hx
  exact ⟨hI.holds.replied, fun seq pac c ht hd hc => error_dropped hI.distinct ht hd hc⟩

theorem only_data_delivered_read : ∃ x : Server,
    runs (step plenty) start (greeting ++ pass [ask rtOpen 0] [bare 2 ptConnected 1] ++
      pass [ask rtRead 1] [dataPac 3 0 1]) = some x ∧
    ∀ r ∈ x.replied, r.type = rtRead → r.state = .ok →
      CarriesData (greeting ++ pass [ask rtOpen 0] [bare 2 ptConnected 1] ++ pass [ask rtRead 1] [dataPac 3 0 1]) r := by
  obtain ⟨x, hx⟩ : ∃ x, runs (step plenty) start (greeting ++ pass [ask rtOpen 0] [bare 2 ptConnected 1] ++
      pass [ask rtRead 1] [dataPac 3 0 1]) = some x :=
    Option.isSome_iff_exists.1 (by decide +kernel)
  exact ⟨x, hx, (only_data_delivered plenty (by decide +kernel) hx).1⟩

end AmiPiBorg.Server
