import AmiPiBorg.Fs.Steps

/-!
# The answers to a read or a write, one after the other

A read gets any number of answers to its one request, and a write one for each of its requests. `Served p done rest s t`
says that from `s` to `t` the answers `done` to requests for the packet `p` came in, in this order, and that `rest` are
still to come. Between them anything may happen that leaves the packet, the requests that are still to be answered and
some of the memory alone (`Elsewhere`), as the steps of the client and of DOS do that are about other packets
(`Alone.step`).

`receive_write` and `receive_read` say all that one answer does.
-/

set_option autoImplicit false

namespace AmiPiBorg.Fs

open ProgLib

variable {s s' t u : State} {v p r : Addr} {rs : List Addr} {M : Set Addr} {res : FsResponse} {lock : Option Addr}
  {m : State.Mounting} {past rest : List FsResponse} {e : Event}

/-! ## One answer -/

/-- The result of an answer is counted. -/
def DosPacket.counted (pkt : DosPacket) (res : FsResponse) : DosPacket :=
  if res.res1 > 0 then { pkt with res1 := pkt.res1 + res.res1, res2 := 0 } else pkt

/-- What an answer to a read or a write makes of its packet. -/
def DosPacket.answered (pkt : DosPacket) (v : Addr) (res : FsResponse) : DosPacket :=
  if res.res2 = 0 then pkt.counted res
  else if res.res2 = minusOne then { pkt.counted res with port := .volume v }
  else { pkt.counted res with res1 := res.res1, res2 := res.res2, port := .volume v }

/-- What an answer changes. -/
structure Answers (p : Addr) (res : FsResponse) (s s' : State) : Prop where
  pkt : s'.pkts p = (s.pkts p).answered (s.reqs res.req).volume res
  reqs : s'.reqs = s.reqs
  replied : s'.replied = s.replied ++ if res.res2 = 0 then [] else [p]

@[simp] theorem setRes_self (s : State) (p : Addr) (res1 res2 : UInt32) :
    (s.setRes p res1 res2).pkts p = { s.pkts p with res1 := res1, res2 := res2 } := Function.update_self ..

@[simp] theorem setRes1_self (s : State) (p : Addr) (res1 : UInt32) :
    (s.setRes1 p res1).pkts p = { s.pkts p with res1 := res1 } := Function.update_self ..

@[simp] theorem reply_self (s : State) (v : Addr) (r : Option Addr) (p : Addr) :
    (s.replyToDosPacket v r p).pkts p = { s.pkts p with port := .volume v } := by
  rw [replyToDosPacket_eq]
  exact Function.update_self ..

@[simp] theorem reply_reqs (s : State) (v : Addr) (r : Option Addr) (p : Addr) :
    (s.replyToDosPacket v r p).reqs = s.reqs := by rw [replyToDosPacket_eq]

@[simp] theorem reply_mem (s : State) (v : Addr) (r : Option Addr) (p : Addr) :
    (s.replyToDosPacket v r p).mem = s.mem := by rw [replyToDosPacket_eq]

@[simp] theorem reply_replied (s : State) (v : Addr) (r : Option Addr) (p : Addr) :
    (s.replyToDosPacket v r p).replied = s.replied ++ [p] := by rw [replyToDosPacket_eq]

/-- The end of `FS_ActionReadReply` and of `FS_ActionWriteReply`. -/
def State.finish (s : State) (v : Addr) (res : FsResponse) (p : Addr) : State :=
  if res.res2 = 0 then s
  else if res.res2 = minusOne then s.replyToDosPacket v (some res.req) p
  else (s.setRes p res.res1 res.res2).replyToDosPacket v (some res.req) p

theorem finish_spec (s : State) (v : Addr) (res : FsResponse) (p : Addr) : (s.finish v res p).reqs = s.reqs ∧
    (s.finish v res p).mem = s.mem ∧
    (s.finish v res p).replied = s.replied ++ if res.res2 = 0 then [] else [p] := by
  unfold State.finish
  split
  · exact ⟨rfl, rfl, (List.append_nil _).symm⟩
  · split
    · exact ⟨reply_reqs .., reply_mem .., reply_replied ..⟩
    · exact ⟨reply_reqs .., reply_mem .., reply_replied ..⟩

/-- What is counted before makes up the answer. -/
theorem finish_pkt {s₁ : State} (hp : s₁.pkts p = (s.pkts p).counted res) :
    (s₁.finish v res p).pkts p = (s.pkts p).answered v res := by
  unfold State.finish DosPacket.answered
  split
  · exact hp
  · split
    · rw [reply_self, hp]
    · rw [reply_self, setRes_self, hp]

/-- An answer to a request comes to `FS_ReceiveRemoteMessage`. -/
theorem receiveResponse_request (hv : ValidAddr res.req) (s : State) : s.receiveResponse res lock m =
    (s.unlinked res).receiveRemoteMessage (s.reqs res.req).volume res lock := by
  unfold State.receiveResponse
  rw [if_neg hv.2.1, if_neg hv.2.2]
  rfl

/-- **An answer to a write** counts its result. -/
theorem receive_write (hv : ValidAddr res.req) (hp : (s.reqs res.req).pkt = p) (ht : (s.pkts p).type = .write)
    (lock : Option Addr) (m : State.Mounting) :
    ∃ s', s.receiveResponse res lock m = some s' ∧ Answers p res s s' ∧ s'.mem = s.mem := by
  have hp' : ((s.unlinked res).reqs res.req).pkt = p := hp
  have ht' : ((s.unlinked res).pkts p).type = .write := ht
  rw [receiveResponse_request hv]
  unfold State.receiveRemoteMessage
  rw [hp']
  dsimp only
  rw [ht']
  let s₁ := if res.res1 > 0 then (s.unlinked res).setRes p ((s.pkts p).res1 + res.res1) 0 else s.unlinked res
  have hs₁ : s₁.pkts p = (s.pkts p).counted res ∧ s₁.reqs = s.reqs ∧ s₁.replied = s.replied ∧ s₁.mem = s.mem := by
    unfold DosPacket.counted
    dsimp only [s₁]
    split
    · exact ⟨setRes_self .., rfl, rfl, rfl⟩
    · exact ⟨rfl, rfl, rfl, rfl⟩
  obtain ⟨hpkt, hreqs, hreplied, hmem⟩ := hs₁
  obtain ⟨hfr, hfm, hfre⟩ := finish_spec s₁ (s.reqs res.req).volume res p
  refine ⟨s₁.finish (s.reqs res.req).volume res p, rfl, ⟨finish_pkt hpkt, hfr.trans hreqs, ?_⟩, hfm.trans hmem⟩
  rw [hfre, hreplied]

/-- **An answer to a read** copies its data behind what was copied before. -/
theorem receive_read (hv : ValidAddr res.req) (hp : (s.reqs res.req).pkt = p) (ht : (s.pkts p).type = .read)
    (hfit : 0 < res.res1.toNat → (s.pkts p).res1.toNat + res.res1.toNat ≤ (s.pkts p).arg3.toNat) (lock : Option Addr)
    (m : State.Mounting) : ∃ s', s.receiveResponse res lock m = some s' ∧ Answers p res s s' ∧
      s'.mem = copyMem s.mem res.data ((s.pkts p).arg2 + (s.pkts p).res1) res.res1.toNat := by
  have hp' : ((s.unlinked res).reqs res.req).pkt = p := hp
  have ht' : ((s.unlinked res).pkts p).type = .read := ht
  rw [receiveResponse_request hv]
  unfold State.receiveRemoteMessage
  rw [hp']
  dsimp only
  rw [ht']
  dsimp only [State.actionReadReply]
  by_cases hz : res.res1 > 0
  · have hpos : 0 < res.res1.toNat := UInt32.lt_iff_toNat_lt.1 hz
    have hle : ¬((s.unlinked res).pkts p).arg3.toNat < ((s.unlinked res).pkts p).res1.toNat + res.res1.toNat :=
      Nat.not_lt.2 (hfit hpos)
    rw [if_pos hz, if_neg hle, Option.map_some]
    let s₁ : State := { (s.unlinked res).setRes p ((s.pkts p).res1 + res.res1) 0 with
      mem := copyMem s.mem res.data ((s.pkts p).arg2 + (s.pkts p).res1) res.res1.toNat }
    have hpkt : s₁.pkts p = (s.pkts p).counted res := by
      unfold DosPacket.counted
      rw [if_pos hz]
      exact setRes_self ..
    obtain ⟨hfr, hfm, hfre⟩ := finish_spec s₁ (s.reqs res.req).volume res p
    exact ⟨s₁.finish (s.reqs res.req).volume res p, rfl, ⟨finish_pkt hpkt, hfr, hfre⟩, hfm⟩
  · have hzero : res.res1.toNat = 0 := Nat.eq_zero_of_not_pos fun h => hz (UInt32.lt_iff_toNat_lt.2 h)
    rw [if_neg hz, Option.map_some]
    have hpkt : (s.unlinked res).pkts p = (s.pkts p).counted res := (if_neg hz).symm
    obtain ⟨hfr, hfm, hfre⟩ := finish_spec (s.unlinked res) (s.reqs res.req).volume res p
    refine ⟨(s.unlinked res).finish (s.reqs res.req).volume res p, rfl, ⟨finish_pkt hpkt, hfr, hfre⟩, ?_⟩
    rw [hfm, hzero]
    funext a
    exact (if_neg (Nat.not_lt_zero _)).symm

/-! ## Answers one after the other -/

/-- Whatever else changes, the packet `p`, the requests `rs` and the memory `M` are as they were, and the packet is not
replied to. -/
structure Elsewhere (p : Addr) (rs : List Addr) (M : Set Addr) (s s' : State) : Prop where
  pkt : s'.pkts p = s.pkts p
  reqs : ∀ r ∈ rs, s'.reqs r = s.reqs r
  replied : s'.replied.count p = s.replied.count p
  mem : ∀ a ∈ M, s'.mem a = s.mem a

/-- From `s` on, the answers `past` came in, and `rest` are to come. -/
inductive Served (p : Addr) (M : Set Addr) (s : State) : List FsResponse → List FsResponse → State → Prop
  | start (rest : List FsResponse) : Served p M s [] rest s
  | elsewhere {past rest : List FsResponse} {t u : State} : Served p M s past rest t →
      Elsewhere p (rest.map FsResponse.req) M t u → Served p M s past rest u
  | answered {past rest : List FsResponse} {res : FsResponse} {lock : Option Addr} {m : State.Mounting} {t u : State} :
      Served p M s past (res :: rest) t → t.receiveResponse res lock m = some u → Served p M s (past ++ [res]) rest u

/-- The requests of the answers are requests for the packet. -/
def For (p : Addr) (s : State) (as : List FsResponse) : Prop :=
  ∀ res ∈ as, ValidAddr res.req ∧ (s.reqs res.req).pkt = p

/-- Each answer to a write has its effect. -/
theorem For.write (hf : For p t (res :: rest)) (ht : (t.pkts p).type = .write)
    (hu : t.receiveResponse res lock m = some u) : Answers p res t u := by
  obtain ⟨hv, hp⟩ := hf res List.mem_cons_self
  obtain ⟨u', hu', ha, -⟩ := receive_write hv hp ht lock m
  cases hu'.symm.trans hu
  exact ha

theorem For.write_defined (hf : For p t rest) (ht : (t.pkts p).type = .write) (hres : res ∈ rest) (lock : Option Addr)
    (m : State.Mounting) : ∃ u, t.receiveResponse res lock m = some u := by
  obtain ⟨hv, hp⟩ := hf res hres
  obtain ⟨u, hu, -⟩ := receive_write hv hp ht lock m
  exact ⟨u, hu⟩

/-- **The rule for answers**: what every answer keeps, and everything elsewhere, holds all along. -/
theorem Served.induct {I : List FsResponse → State → Prop} {as : List FsResponse} (hfor : For p s as) (hI : I [] s)
    (helse : ∀ past rest t u, as = past ++ rest → For p t rest → I past t →
      Elsewhere p (rest.map FsResponse.req) M t u → I past u)
    (hstep : ∀ past res rest lock m t u, as = past ++ res :: rest → For p t (res :: rest) → I past t →
      t.receiveResponse res lock m = some u → u.reqs = t.reqs ∧ I (past ++ [res]) u) :
    ∀ {past rest : List FsResponse} {t : State}, Served p M s past rest t → as = past ++ rest → I past t ∧ For p t rest
  | _, _, _, .start _, has => ⟨hI, by rwa [has] at hfor⟩
  | past, rest, u, .elsewhere (t := t) hs he, has => by
    obtain ⟨hIt, hft⟩ := Served.induct hfor hI helse hstep hs has
    refine ⟨helse past rest t u has hft hIt he, fun res hr => ⟨(hft res hr).1, ?_⟩⟩
    rw [he.reqs _ (List.mem_map_of_mem hr)]
    exact (hft res hr).2
  | _, rest, u, @Served.answered _ _ _ past _ res lock m t _ hs hr, has => by
    have has' : as = past ++ res :: rest := by rw [has, List.append_assoc, List.singleton_append]
    obtain ⟨hIt, hft⟩ := Served.induct hfor hI helse hstep hs has'
    obtain ⟨hreqs, hI'⟩ := hstep past res rest lock m t u has' hft hIt hr
    refine ⟨hI', fun a ha => ?_⟩
    rw [hreqs]
    exact hft a (List.mem_cons_of_mem _ ha)

/-- Where every answer gets somewhere, they come in one after the other. The induction is on those that came in. -/
theorem Served.reach {as : List FsResponse} (hdef : ∀ past rest t, Served p M s past rest t → as = past ++ rest →
    ∀ res ∈ rest, ∀ lock m, ∃ u, t.receiveResponse res lock m = some u) (has : as = past ++ rest) :
    ∃ t, Served p M s past rest t := by
  induction past using List.reverseRecOn generalizing rest with
  | nil => exact ⟨s, .start rest⟩
  | append_singleton past res ih =>
    rw [List.append_assoc, List.singleton_append] at has
    obtain ⟨t, ht⟩ := ih has
    obtain ⟨u, hu⟩ := hdef past (res :: rest) t ht has res List.mem_cons_self none noMounting
    exact ⟨u, ht.answered hu⟩

theorem Served.all {as : List FsResponse} (hdef : ∀ past rest t, Served p M s past rest t → as = past ++ rest →
    ∀ res ∈ rest, ∀ lock m, ∃ u, t.receiveResponse res lock m = some u) : ∃ t, Served p M s as [] t :=
  Served.reach hdef (List.append_nil as).symm

/-! ## What the answers add up to -/

/-- How many bytes the answers tell of. -/
def total (as : List FsResponse) : Nat := (as.map fun a => a.res1.toNat).sum

theorem total_append (as bs : List FsResponse) : total (as ++ bs) = total as + total bs := by simp [total]

theorem total_cons (as : List FsResponse) : total (res :: as) = res.res1.toNat + total as := rfl

theorem total_le {as : List FsResponse} (has : as = past ++ res :: rest) : total past + res.res1.toNat ≤ total as := by
  rw [has, total_append, total_cons, ← Nat.add_assoc]
  exact Nat.le_add_right _ _

/-- The last answer has -1, and the others have 0. -/
def Ending (as : List FsResponse) : Prop :=
  ∃ init last, as = init ++ [last] ∧ (∀ a ∈ init, a.res2 = 0) ∧ last.res2 = minusOne

theorem Ending.res2 {as : List FsResponse} (h : Ending as) (has : as = past ++ res :: rest) :
    res.res2 = if rest = [] then minusOne else 0 := by
  obtain ⟨init, last, rfl, hi, hl⟩ := h
  obtain rfl | ⟨rest', l, rfl⟩ := rest.eq_nil_or_concat'
  · have he : last = res := List.singleton_inj.1 (List.append_inj' has rfl).2
    rw [if_pos rfl, ← he, hl]
  · rw [if_neg (by simp)]
    rw [← List.cons_append, ← List.append_assoc] at has
    exact hi res (by rw [(List.append_inj' has rfl).1]; simp)

theorem Ending.or {as : List FsResponse} (h : Ending as) (has : as = past ++ res :: rest) :
    res.res2 = 0 ∨ res.res2 = minusOne := by
  rw [h.res2 has]
  split
  · exact .inr rfl
  · exact .inl rfl

/-- How many of the answers say that they are the last one. -/
def finals (as : List FsResponse) : Nat := as.countP fun a => a.res2 ≠ 0

/-- Nothing says so before the last answer. -/
theorem Ending.finals {as : List FsResponse} (h : Ending as) (has : as = past ++ rest) :
    finals past = if rest = [] then 1 else 0 := by
  obtain ⟨init, last, hil, hi, hl⟩ := h
  have hzero : ∀ l, (∀ a ∈ l, a ∈ init) → Fs.finals l = 0 := fun l hs =>
    List.countP_eq_zero.2 fun a ha => by simp [hi a (hs a ha)]
  obtain rfl | ⟨rest', l, rfl⟩ := rest.eq_nil_or_concat'
  · rw [if_pos rfl]
    have hpast : past = init ++ [last] := by rw [← hil, has, List.append_nil]
    have hone : last.res2 ≠ 0 := by rw [hl]; decide
    rw [hpast, Fs.finals, List.countP_append, List.countP_singleton, if_pos (by simpa using hone)]
    exact congrArg (· + 1) (hzero init fun _ ha => ha)
  · rw [if_neg (by simp)]
    rw [hil, ← List.append_assoc] at has
    exact hzero past fun a ha => by rw [(List.append_inj' has rfl).1]; simp [ha]

/-- The answers `past` have been counted since `s`. -/
structure Summed (p : Addr) (s : State) (past : List FsResponse) (t : State) : Prop where
  type : (t.pkts p).type = (s.pkts p).type
  arg2 : (t.pkts p).arg2 = (s.pkts p).arg2
  arg3 : (t.pkts p).arg3 = (s.pkts p).arg3
  res1 : (t.pkts p).res1.toNat = total past
  replied : t.replied.count p = s.replied.count p + finals past

theorem DosPacket.answered_args (pkt : DosPacket) (v : Addr) (res : FsResponse) :
    (pkt.answered v res).type = pkt.type ∧ (pkt.answered v res).arg2 = pkt.arg2 ∧
      (pkt.answered v res).arg3 = pkt.arg3 := by
  have hc : (pkt.counted res).type = pkt.type ∧ (pkt.counted res).arg2 = pkt.arg2 ∧
      (pkt.counted res).arg3 = pkt.arg3 := by
    unfold DosPacket.counted
    split <;> exact ⟨rfl, rfl, rfl⟩
  unfold DosPacket.answered
  split
  · exact hc
  · split <;> exact hc

theorem DosPacket.answered_res1 {pkt : DosPacket} (hr : res.res2 = 0 ∨ res.res2 = minusOne)
    (hlt : pkt.res1.toNat + res.res1.toNat < 2 ^ 32) :
    (pkt.answered v res).res1.toNat = pkt.res1.toNat + res.res1.toNat := by
  have hc : (pkt.counted res).res1.toNat = pkt.res1.toNat + res.res1.toNat := by
    unfold DosPacket.counted
    split
    case isTrue => exact (UInt32.toNat_add _ _).trans (Nat.mod_eq_of_lt hlt)
    case isFalse hz => rw [Nat.eq_zero_of_not_pos fun h => hz (UInt32.lt_iff_toNat_lt.2 h), Nat.add_zero]
  unfold DosPacket.answered
  split
  case isTrue => exact hc
  case isFalse hz =>
    rw [if_pos (hr.resolve_left hz)]
    exact hc

/-- One more answer. -/
theorem Summed.answered (h : Summed p s past t) (ha : Answers p res t u) (hr : res.res2 = 0 ∨ res.res2 = minusOne)
    (hlt : total past + res.res1.toNat < 2 ^ 32) : Summed p s (past ++ [res]) u := by
  obtain ⟨htype, harg2, harg3⟩ := (t.pkts p).answered_args (t.reqs res.req).volume res
  rw [← h.res1] at hlt
  constructor
  · rw [ha.pkt, htype, h.type]
  · rw [ha.pkt, harg2, h.arg2]
  · rw [ha.pkt, harg3, h.arg3]
  · rw [ha.pkt, DosPacket.answered_res1 hr hlt, h.res1, total_append, total_cons]
    rfl
  · rw [ha.replied, List.count_append, h.replied, Fs.finals, Fs.finals, List.countP_append, List.countP_singleton,
      Nat.add_assoc]
    congr 2
    by_cases hz : res.res2 = 0 <;> simp [hz]

theorem Summed.elsewhere (h : Summed p s past t) (he : Elsewhere p rs M t u) : Summed p s past u :=
  ⟨by rw [he.pkt, h.type], by rw [he.pkt, h.arg2], by rw [he.pkt, h.arg3], by rw [he.pkt, h.res1],
    by rw [he.replied, h.replied]⟩

theorem Summed.start (h : (s.pkts p).res1 = 0) : Summed p s [] s := ⟨rfl, rfl, rfl, by rw [h]; rfl, rfl⟩

/-! ## What happens elsewhere -/

/-- DOS waits for the packet, and `rs` are the requests for it. -/
structure Alone (p : Addr) (rs : List Addr) (s : State) : Prop where
  out : p ∈ s.out
  msgs : ∀ m ∈ s.msgs, m.2 ≠ p
  placed : ∀ r ∈ rs, r ∈ s.queued ++ s.unanswered
  only : ∀ r ∈ s.queued ++ s.unanswered, (s.reqs r).pkt = p → r ∈ rs

/-- The event is no answer to one of the requests. -/
def NoAnswer (rs : List Addr) : Event → Prop
  | .response res _ _ => res.req ∉ rs
  | _ => True

/-- The packet is left alone. -/
def Leaves (p : Addr) (rs : List Addr) (s s' : State) : Prop := Elsewhere p rs ∅ s s' ∧ Alone p rs s'

theorem Leaves.trans (h : Leaves p rs s s') (h' : Alone p rs s' → Leaves p rs s' t) : Leaves p rs s t := by
  obtain ⟨he, ha⟩ := h
  obtain ⟨he', ha'⟩ := h' ha
  exact ⟨⟨he'.pkt.trans he.pkt, fun r hr => (he'.reqs r hr).trans (he.reqs r hr), he'.replied.trans he.replied,
    fun a hm => hm.elim⟩, ha'⟩

/-- Nothing that matters changes. -/
theorem Alone.congr (ha : Alone p rs s) (hp : s'.pkts p = s.pkts p) (hr : s'.reqs = s.reqs) (hre : s'.replied = s.replied)
    (ho : s'.out = s.out) (hm : ∀ m ∈ s'.msgs, m ∈ s.msgs)
    (hq : (s'.queued ++ s'.unanswered).Perm (s.queued ++ s.unanswered)) : Leaves p rs s s' := by
  refine ⟨⟨hp, fun r _ => by rw [hr], by rw [hre], fun a hm => hm.elim⟩, ⟨by rw [ho]; exact ha.out,
    fun m h => ha.msgs m (hm m h), fun r h => hq.mem_iff.2 (ha.placed r h), fun r h hpkt => ?_⟩⟩
  rw [hr] at hpkt
  exact ha.only r (hq.mem_iff.1 h) hpkt

variable {q : Addr} {mems : List (Option Addr)} {a : Action} {new : List Addr}

theorem Alone.quiet (ha : Alone p rs s) (hq : Quiet q s s') (hne : p ≠ q) : Leaves p rs s s' := by
  refine ha.congr (hq.others p hne) hq.reqs hq.replied hq.out (fun m hm => by rwa [hq.msgs] at hm) ?_
  rw [hq.queued, hq.unanswered]

theorem Alone.reply (ha : Alone p rs s) (hne : p ≠ q) (v : Addr) (r : Option Addr) :
    Leaves p rs s (s.replyToDosPacket v r q) := by
  rw [replyToDosPacket_eq]
  refine ⟨⟨Function.update_of_ne hne .., fun _ _ => rfl, ?_, fun a hm => hm.elim⟩, ⟨?_, fun m hm => ?_, ha.placed,
    ha.only⟩⟩
  · show (s.replied ++ [q]).count p = _
    rw [List.count_append, List.count_singleton, if_neg (by simpa using hne.symm), Nat.add_zero]
  · show p ∈ (s.pkts q).port.toDos q s.out
    unfold Port.toDos
    split
    · exact (List.mem_erase_of_ne hne).2 ha.out
    · exact ha.out
  · obtain hm | hm := List.mem_append.1 hm
    · exact ha.msgs m hm
    · unfold Port.toVolume at hm
      split at hm
      · cases hm
      · rw [List.mem_singleton.1 hm]
        exact hne.symm

theorem Alone.asks (ha : Alone p rs s) (h : Asks v q a new s s') (hne : p ≠ q)
    (hnew : ∀ r ∈ new, r ∉ s.queued ++ s.unanswered) : Leaves p rs s s' := by
  have hreqs : ∀ r ∈ s.queued ++ s.unanswered, s'.reqs r = s.reqs r := fun r hr => h.reqs r fun hm => hnew r hm hr
  refine ⟨⟨by rw [h.pkts], fun r hr => hreqs r (ha.placed r hr), by rw [h.replied], fun a hm => hm.elim⟩,
    ⟨by rw [h.out]; exact ha.out, fun m hm => ha.msgs m (by rwa [h.msgs] at hm),
      fun r hr => h.perm.mem_iff.2 (List.mem_append_left _ (ha.placed r hr)), fun r hr hp => ?_⟩⟩
  obtain hr | hr := List.mem_append.1 (h.perm.mem_iff.1 hr)
  · rw [hreqs r hr] at hp
    exact ha.only r hr hp
  · exact absurd ((h.filled r hr).pkt.symm.trans hp) hne.symm

/-- A packet that comes from the port of a volume. -/
theorem Alone.outcome (ha : Alone p rs s) (hc : Core s) (hf : FreshReqs s mems) (ho : Outcome v q mems lock s s')
    (hne : p ≠ q) : Leaves p rs s s' := by
  cases ho with
  | replied s₁ hq _ _ he =>
    rw [he]
    exact (ha.quiet hq hne).trans fun ha' => ha'.reply hne v none
  | asked s₁ r hq _ hsub hasks _ =>
    exact (ha.quiet hq hne).trans fun ha' => ha'.asks hasks hne fun b hb =>
      (hq.core hc).fresh (hq.freshReqs hf) (hsub.subset hb)
  | wrote s₁ new hq _ hsub hasks _ _ _ =>
    exact (ha.quiet hq hne).trans fun ha' => ha'.asks hasks hne fun b hb =>
      (hq.core hc).fresh (hq.freshReqs hf) (hsub.subset hb)
  | ended s₁ r hsub hasks _ _ he =>
    rw [he]
    exact (ha.asks hasks hne fun b hb => hc.fresh hf (hsub.subset hb)).trans fun ha' => ha'.reply hne v none

/-- An answer to another request. -/
theorem Alone.answered (ha : Alone p rs s) (hu : res.req ∈ s.unanswered) (hr : res.req ∉ rs)
    (ho : Answered v res (s.reqs res.req).pkt lock (s.unlinked res) s') : Leaves p rs s s' := by
  have hne : p ≠ (s.reqs res.req).pkt := fun he => hr (ha.only _ (List.mem_append_right _ hu) he.symm)
  have hun : Leaves p rs s (s.unlinked res) := by
    refine ⟨⟨rfl, fun _ _ => rfl, rfl, fun a hm => hm.elim⟩, ⟨ha.out, ha.msgs, fun r hm => ?_, fun r hm hp => ?_⟩⟩
    · obtain hq | hq := List.mem_append.1 (ha.placed r hm)
      · exact List.mem_append_left _ hq
      · refine List.mem_append_right _ ?_
        show r ∈ if s.more res then s.unanswered else s.unanswered.erase res.req
        split
        · exact hq
        · exact (List.mem_erase_of_ne (fun he : r = res.req => hr (he ▸ hm))).2 hq
    · exact ha.only r (((unlinked_sublist s res).append_left _).subset hm) hp
  cases ho with
  | awaited hq _ _ _ => exact hun.trans fun ha' => ha'.quiet hq hne
  | replied s₁ hq _ _ he =>
    rw [he]
    exact hun.trans fun ha' => (ha'.quiet hq hne).trans fun ha'' => ha''.reply hne v _

/-- **Every legal step that is no answer to its requests** leaves the packet alone. -/
theorem Alone.step (ha : Alone p rs s) (hc : Core s) (hl : Legal s e) (hn : NoAnswer rs e) (hs : step s e = some s') :
    Leaves p rs s s' := by
  cases e with
  | arrive v q pkt =>
    have hne : p ≠ q := fun he => hl.2.1 (he ▸ ha.out)
    cases hs
    refine ⟨⟨Function.update_of_ne hne .., fun _ _ => rfl, rfl, fun a hm => hm.elim⟩,
      ⟨List.mem_append_left _ ha.out, fun m hm => ?_, ha.placed, ha.only⟩⟩
    obtain hm | hm := List.mem_append.1 hm
    · exact ha.msgs m hm
    · rw [List.mem_singleton.1 hm]
      exact hne.symm
  | dos v mems lock =>
    obtain ⟨m, hm, ho⟩ := dos_outcome hc hl.2.1 hs
    have hne : p ≠ m.2 := (ha.msgs m (List.mem_of_find?_eq_some hm)).symm
    have ha' : Leaves p rs s { s with msgs := s.msgs.erase m } :=
      ha.congr rfl rfl rfl rfl (fun b hb => List.mem_of_mem_erase hb) (.refl _)
    exact ha'.trans fun h => h.outcome (hc.congr rfl rfl rfl rfl rfl) hl.2.1 ho hne
  | response res lock m =>
    obtain ⟨vols, volList, rfl⟩ | ⟨hu, ho⟩ := response_outcome hl.2.2.1 hs
    · exact ha.congr rfl rfl rfl rfl (fun _ h => h) (.refl _)
    · exact ha.answered hu hn ho
  | readerError =>
    cases hs
    exact ha.congr rfl rfl rfl rfl (fun _ h => h) (.refl _)
  | writerReply =>
    obtain ⟨-, rfl⟩ | ⟨r, l, hq, rfl⟩ := writerReply_eq hc hs
    · exact ha.congr rfl rfl rfl rfl (fun _ h => h) (.refl _)
    · exact ha.congr rfl rfl rfl rfl (fun _ h => h) (sending_perm hq)
  | poke mem locks =>
    cases hs
    exact ha.congr rfl rfl rfl rfl (fun _ h => h) (.refl _)

end AmiPiBorg.Fs
