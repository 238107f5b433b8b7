import AmiPiBorg.Fs.Tally

/-!
# Every lock that is given back is freed

A lock is given back by an `ACTION_FREE_LOCK`, or by an `ACTION_FH_FROM_LOCK` that succeeds. The lock counts are exact and
every lock that is given back is freed (`locks_exact`) as long as no lock without a key is given back, no
`ACTION_FH_FROM_LOCK` of a lock succeeds, and no volume is mounted again while it has locks. A lock without a key is not
freed, `ACTION_FH_FROM_LOCK` frees the file handle in place of the lock, and mounting starts the count anew.

Where a packet is (`places`) tells what its reply needs: an `ACTION_FREE_LOCK` is in one place only, and the lock that it
names is allocated (`Standing`).
-/

set_option autoImplicit false

namespace AmiPiBorg.Fs

open ProgLib

variable {s s' s₁ : State} {v p r l : Addr} {mems : List (Option Addr)} {lock : Option Addr} {res : FsResponse} {e : Event}
  {L L' : List (Addr × Addr)}

/-- **The locks of the volumes**: the counts are those of the locks that are allocated, what is given back and nothing
else is freed, and the client can quit when everything was given back. -/
structure LocksExact (s : State) : Prop where
  count : ∀ v ∈ s.volList, (s.vols v).lockCount.toInt = s.liveOf v
  allocated : s.allocatedLocks.Perm (s.freedLocks ++ s.liveLocks)
  freed : s.freedLocks = s.givenLocks
  quit : s.allocatedLocks.Perm s.givenLocks → s.canQuit = true

/-- The lock that a packet asks to free. -/
def owes (v : Addr) (pkt : DosPacket) : List (Addr × Addr) :=
  if pkt.type = .freeLock ∧ baddr pkt.arg1 ≠ 0 then [(baddr pkt.arg1, v)] else []

/-- Where packets are: on the port of a volume, or with a request. -/
def places (s : State) : List (Addr × Addr) :=
  s.msgs ++ (s.queued ++ s.unanswered).map fun r => ((s.reqs r).volume, (s.reqs r).pkt)

/-- The locks that packets in some places ask to free. -/
def State.owed (s : State) (L : List (Addr × Addr)) : List (Addr × Addr) := L.flatMap fun m => owes m.1 (s.pkts m.2)

/-- DOS sends no packet that is on a port, and asks to free only locks that it has, each of them once. -/
def GivesBack (s : State) : Event → Prop
  | .arrive v p pkt => (∀ m ∈ s.msgs, m.2 ≠ p) ∧ ∀ x ∈ owes v pkt, x ∈ s.liveLocks ∧ x ∉ s.owed (places s)
  | _ => True

instance (s : State) : (e : Event) → Decidable (GivesBack s e)
  | .arrive .. | .dos .. | .response .. | .readerError | .writerReply | .poke .. => by unfold GivesBack; infer_instance

/-- A file handle does not look like a lock. -/
def NoLock (s : State) (fh : Addr) : Prop := fh = 0 ∨ (s.locks fh).magic ≠ State.magicOf fh

instance (s : State) (fh : Addr) : Decidable (NoLock s fh) := by unfold NoLock; infer_instance

/-- No lock without a key is given back, no `ACTION_FH_FROM_LOCK` of a lock succeeds, and volumes that are mounted have
no locks. -/
def Counted (s : State) : Event → Prop
  | .dos v _ _ => ∀ m ∈ s.msgs.find? fun m => m.1 = v, (s.pkts m.2).type = .freeLock →
      s.lockKey (s.pkts m.2).arg1 = 0 → baddr (s.pkts m.2).arg1 = 0
  | .response res _ m => (res.req = mountVolumeKey → MountsEmpty s (res.res1 >>> 16).toUInt16 m) ∧
      let pkt := s.pkts (s.reqs res.req).pkt
      (res.req ∈ s.unanswered → pkt.type = .fhFromLock → res.res1 = dosTrue →
        baddr pkt.arg2 = 0 ∧ NoLock s (baddr pkt.arg1))
  | _ => True

instance (s : State) : (e : Event) → Decidable (Counted s e)
  | .arrive .. | .dos .. | .response .. | .readerError | .writerReply | .poke .. => by unfold Counted; infer_instance

/-! ## Places -/

/-- The reply to a packet goes to a port that is there, and the reply to an `ACTION_FREE_LOCK` to DOS. -/
def Back (s : State) (p : Addr) : Prop :=
  ∀ w, (s.pkts p).port = .volume w → w ∈ s.volList ∧ (s.pkts p).type ≠ .freeLock

/-- What is right about packets in the places `L`. -/
structure Standing (s : State) (L : List (Addr × Addr)) : Prop where
  home : ∀ m ∈ L, m.1 ∈ s.volList
  back : ∀ m ∈ L, Back s m.2
  once : ∀ p, (s.pkts p).type = .freeLock → (L.map Prod.snd).count p ≤ 1
  owed : (s.owed L).Nodup
  live : ∀ x ∈ s.owed L, x ∈ s.liveLocks

theorem owes_of_ne {pkt : DosPacket} (h : pkt.type = .freeLock → baddr pkt.arg1 = 0) (v : Addr) : owes v pkt = [] :=
  if_neg fun hx => hx.2 (h hx.1)

theorem State.owed_cons (s : State) (m : Addr × Addr) (L : List (Addr × Addr)) :
    s.owed (m :: L) = owes m.1 (s.pkts m.2) ++ s.owed L := List.flatMap_cons

theorem State.owed_append (s : State) (L L' : List (Addr × Addr)) : s.owed (L ++ L') = s.owed L ++ s.owed L' :=
  List.flatMap_append

theorem Standing.perm (h : Standing s L) (hp : L'.Perm L) : Standing s L' := by
  have howed : (s.owed L').Perm (s.owed L) := hp.flatMap_right _
  refine ⟨fun m hm => h.home m (hp.mem_iff.1 hm), fun m hm => h.back m (hp.mem_iff.1 hm), fun p hp' => ?_,
    howed.nodup_iff.2 h.owed, fun x hx => h.live x (howed.mem_iff.1 hx)⟩
  rw [(hp.map Prod.snd).count_eq]
  exact h.once p hp'

theorem Standing.tail {m : Addr × Addr} (h : Standing s (m :: L)) : Standing s L := by
  have ho := h.owed
  have hl := h.live
  rw [State.owed_cons] at ho hl
  refine ⟨fun x hx => h.home x (List.mem_cons_of_mem _ hx), fun x hx => h.back x (List.mem_cons_of_mem _ hx),
    fun p hp => ?_, (List.nodup_append.1 ho).2.1, fun x hx => hl x (List.mem_append_right _ hx)⟩
  refine le_trans ?_ (h.once p hp)
  rw [List.map_cons]
  exact List.count_le_count_cons

/-- Packets are the same as far as locks are concerned. -/
def SamePkts (s s' : State) : Prop := ∀ q, (s'.pkts q).type = (s.pkts q).type ∧ (s'.pkts q).port = (s.pkts q).port ∧
  (s'.pkts q).arg1 = (s.pkts q).arg1

theorem Quiet.samePkts (h : Quiet p s s') : SamePkts s s' := fun q => by
  by_cases hq : q = p
  · rw [hq]
    exact ⟨h.type, h.port, h.arg1⟩
  · rw [h.others q hq]
    exact ⟨rfl, rfl, rfl⟩

theorem SamePkts.owed (h : SamePkts s s') (L : List (Addr × Addr)) : s'.owed L = s.owed L := by
  unfold State.owed owes
  simp only [(h _).1, (h _).2.2]

theorem SamePkts.back (h : SamePkts s s') (hv : s.volList ⊆ s'.volList) (hb : Back s p) : Back s' p := by
  intro w hw
  rw [(h p).2.1] at hw
  rw [(h p).1]
  exact ⟨hv (hb w hw).1, (hb w hw).2⟩

theorem Standing.congr (h : Standing s L) (hp : SamePkts s s') (hv : s.volList ⊆ s'.volList)
    (hl : ∀ x ∈ s.owed L, x ∈ s'.liveLocks) : Standing s' L := by
  refine ⟨fun m hm => hv (h.home m hm), fun m hm => hp.back hv (h.back m hm), fun p ht => ?_, ?_, fun x hx => ?_⟩
  · rw [(hp p).1] at ht
    exact h.once p ht
  · rw [hp.owed]
    exact h.owed
  · rw [hp.owed] at hx
    exact hl x hx

/-- A packet gets into more places, unless it is an `ACTION_FREE_LOCK`. -/
theorem Standing.more (h : Standing s ((v, p) :: L)) (ht : (s.pkts p).type ≠ .freeLock)
    (hL : ∀ m ∈ L', m = (v, p)) : Standing s (L' ++ L) := by
  have howed : s.owed (L' ++ L) = s.owed L := by
    rw [State.owed_append, List.append_left_eq_self]
    refine List.flatMap_eq_nil_iff.2 fun m hm => ?_
    rw [hL m hm]
    exact owes_of_ne (fun he => absurd he ht) v
  have hof : ∀ P : Addr × Addr → Prop, (∀ m ∈ (v, p) :: L, P m) → ∀ m ∈ L' ++ L, P m := by
    intro P hP m hm
    obtain hm | hm := List.mem_append.1 hm
    · rw [hL m hm]
      exact hP _ List.mem_cons_self
    · exact hP m (List.mem_cons_of_mem _ hm)
  have htail := h.tail
  refine ⟨hof _ h.home, hof _ h.back, fun q hq => ?_, howed ▸ htail.owed, fun x hx => htail.live x (howed ▸ hx)⟩
  have hzero : (L'.map Prod.snd).count q = 0 := by
    refine List.count_eq_zero.2 fun hm => ?_
    obtain ⟨m, hm', rfl⟩ := List.mem_map.1 hm
    rw [hL m hm'] at hq
    exact ht hq
  rw [List.map_append, List.count_append, hzero, Nat.zero_add]
  exact htail.once q hq

/-- **A reply** puts the packet into the place that its port tells. -/
theorem Standing.reply (h : Standing s L) (hv : v ∈ s.volList) (hb : Back s p)
    (hn : (s.pkts p).type = .freeLock → p ∉ L.map Prod.snd) (r : Option Addr) :
    Standing (s.replyToDosPacket v r p) (L ++ (s.pkts p).port.toVolume p) := by
  have hto : ∀ m ∈ (s.pkts p).port.toVolume p, m.2 = p ∧ m.1 ∈ s.volList ∧ (s.pkts p).type ≠ .freeLock := by
    intro m hm
    unfold Port.toVolume at hm
    split at hm
    · cases hm
    · next w hw =>
      rw [List.mem_singleton.1 hm]
      exact ⟨rfl, hb w hw⟩
  have hpkt : ∀ q, ((s.replyToDosPacket v r p).pkts q).type = (s.pkts q).type ∧
      ((s.replyToDosPacket v r p).pkts q).arg1 = (s.pkts q).arg1 := by
    intro q
    rw [replyToDosPacket_eq]
    dsimp only
    by_cases hq : q = p
    · rw [hq, Function.update_self]
      exact ⟨rfl, rfl⟩
    · rw [Function.update_of_ne hq]
      exact ⟨rfl, rfl⟩
  have howed : (s.replyToDosPacket v r p).owed (L ++ (s.pkts p).port.toVolume p) = s.owed L := by
    have hsame : ∀ L', (s.replyToDosPacket v r p).owed L' = s.owed L' := by
      intro L'
      unfold State.owed owes
      simp only [(hpkt _).1, (hpkt _).2]
    rw [hsame, State.owed_append, List.append_right_eq_self]
    refine List.flatMap_eq_nil_iff.2 fun m hm => owes_of_ne (fun he => ?_) _
    rw [(hto m hm).1] at he
    exact absurd he (hto m hm).2.2
  have hvl : (s.replyToDosPacket v r p).volList = s.volList := by rw [replyToDosPacket_eq]
  refine ⟨fun m hm => ?_, fun m hm w hw => ?_, fun q hq => ?_, ?_, fun x hx => ?_⟩
  · rw [hvl]
    obtain hm | hm := List.mem_append.1 hm
    · exact h.home m hm
    · exact (hto m hm).2.1
  · rw [hvl, (hpkt m.2).1]
    by_cases hmp : m.2 = p
    · have hwv : w = v := by
        rw [hmp, replyToDosPacket_eq] at hw
        dsimp only at hw
        rw [Function.update_self] at hw
        exact (Port.volume.inj hw).symm
      refine ⟨hwv ▸ hv, fun ht => ?_⟩
      rw [hmp] at ht
      obtain hm | hm := List.mem_append.1 hm
      · exact hn ht (hmp ▸ List.mem_map_of_mem hm)
      · exact (hto m hm).2.2 ht
    · rw [replyToDosPacket_eq] at hw
      dsimp only at hw
      rw [Function.update_of_ne hmp] at hw
      obtain hm | hm := List.mem_append.1 hm
      · exact h.back m hm w hw
      · exact absurd (hto m hm).1 hmp
  · rw [(hpkt q).1] at hq
    have hzero : (((s.pkts p).port.toVolume p).map Prod.snd).count q = 0 := by
      refine List.count_eq_zero.2 fun hm => ?_
      obtain ⟨m, hm', rfl⟩ := List.mem_map.1 hm
      rw [(hto m hm').1] at hq
      exact (hto m hm').2.2 hq
    rw [List.map_append, List.count_append, hzero, Nat.add_zero]
    exact h.once q hq
  · rw [howed]
    exact h.owed
  · rw [howed] at hx
    rw [replyToDosPacket_eq]
    exact h.live x hx

/-- An `ACTION_FREE_LOCK` is nowhere else. -/
theorem Standing.notMem (h : Standing s ((v, p) :: L)) (ht : (s.pkts p).type = .freeLock) : p ∉ L.map Prod.snd := by
  have hone := h.once p ht
  rw [List.map_cons, List.count_cons_self] at hone
  exact List.count_eq_zero.1 (Nat.le_zero.1 (Nat.le_of_succ_le_succ hone))

/-! ## Packets -/

/-- What holds of locks and of the packets that are about them. -/
structure Settled (s : State) : Prop where
  tally : Tally s
  standing : Standing s (places s)
  given : s.freedLocks = s.givenLocks

theorem Quiet.places (h : Quiet p s s') : places s' = places s := by
  unfold Fs.places
  rw [h.reqs, h.msgs, h.queued, h.unanswered]

theorem places_perm (hr : s'.reqs = s.reqs) (hm : s'.msgs = s.msgs)
    (hp : (s'.queued ++ s'.unanswered).Perm (s.queued ++ s.unanswered)) : (places s').Perm (places s) := by
  unfold places
  rw [hr, hm]
  exact (hp.map _).append_left _

theorem givenLock_nil {pkt : DosPacket} (h : pkt.type = .freeLock → baddr pkt.arg1 = 0)
    (h' : pkt.type = .fhFromLock → pkt.res1 = dosTrue → baddr pkt.arg2 = 0) (v : Addr) :
    State.givenLock v pkt = [] := by
  unfold State.givenLock
  rw [if_neg fun hx => hx.2 (h hx.1), if_neg fun hx => hx.2.2 (h' hx.1 hx.2.1)]

theorem givenLock_of_ne {pkt : DosPacket} (h : pkt.type ≠ .freeLock) (h' : pkt.type ≠ .fhFromLock) (v : Addr) :
    State.givenLock v pkt = [] := givenLock_nil (fun he => absurd he h) (fun he => absurd he h') v

/-- After a reply, everything that was given back is freed. -/
theorem settled_reply (ht : Tally s) (hst : Standing s (places s)) (hv : v ∈ s.volList) (hb : Back s p)
    (hn : (s.pkts p).type = .freeLock → p ∉ (places s).map Prod.snd)
    (hg : s.freedLocks = s.givenLocks ++ State.givenLock v (s.pkts p)) (r : Option Addr) :
    Settled (s.replyToDosPacket v r p) := by
  refine ⟨ht.books ?_ ?_, (hst.reply hv hb hn r).perm ?_, ?_⟩
  · rw [replyToDosPacket_eq]
    rfl
  · rw [replyToDosPacket_eq]
  · rw [replyToDosPacket_eq]
    unfold places
    dsimp only
    rw [List.append_assoc, List.append_assoc]
    exact List.perm_append_comm.append_left _
  · rw [replyToDosPacket_eq]
    exact hg

/-- New requests are where their packet is. -/
theorem settled_asks {t : Action} {new : List Addr} (ht : Tally s) (ha : Asks v p t new s s')
    (hnew : ∀ r ∈ new, r ∉ s.queued ++ s.unanswered)
    (hst : Standing s (new.map (fun _ => (v, p)) ++ places s)) (hg : s.freedLocks = s.givenLocks) : Settled s' := by
  have hplaces : (places s').Perm (new.map (fun _ => (v, p)) ++ places s) := by
    have hold : ((s.queued ++ s.unanswered).map fun r => ((s'.reqs r).volume, (s'.reqs r).pkt)) =
        (s.queued ++ s.unanswered).map fun r => ((s.reqs r).volume, (s.reqs r).pkt) :=
      List.map_congr_left fun r hr => by rw [ha.reqs r fun hm => hnew r hm hr]
    have hfresh : (new.map fun r => ((s'.reqs r).volume, (s'.reqs r).pkt)) = new.map fun _ => (v, p) :=
      List.map_congr_left fun r hr => by rw [(ha.filled r hr).volume, (ha.filled r hr).pkt]
    unfold places
    rw [ha.msgs]
    refine ((ha.perm.map _).append_left _).trans ?_
    rw [List.map_append, hold, hfresh, ← List.append_assoc]
    exact List.perm_append_comm
  refine ⟨?_, ?_, ?_⟩
  · exact ht.congr ha.liveLocks ha.allocatedLocks ha.freedLocks ha.volList (fun v => by rw [ha.vols])
      fun x _ => by rw [ha.locks]
  · refine (hst.perm hplaces).congr (fun q => ?_) (List.Perm.of_eq ha.volList.symm).subset fun x hx => ?_
    · rw [ha.pkts]
      exact ⟨rfl, rfl, rfl⟩
    · rw [ha.liveLocks]
      exact (hst.perm hplaces).live x hx
  · rw [ha.freedLocks, ha.givenLocks]
    exact hg

theorem Standing.quiet (h : Standing s L) (hq : Quiet p s s') (hl : s.liveLocks ⊆ s'.liveLocks) : Standing s' L :=
  h.congr hq.samePkts (List.Perm.of_eq hq.volList.symm).subset fun x hx => hl (h.live x hx)

theorem Lends.of_books (h : Tally s) (hb : s'.lockBooks = s.lockBooks) (hq : Quiet p s s') : Lends s s' :=
  ⟨h.books hb hq.volList, congrArg LockBooks.freedLocks hb,
    (List.Perm.of_eq (congrArg LockBooks.liveLocks hb).symm).subset⟩

theorem Outcome.settled (ho : Outcome v p mems lock s s') (hc : Core s) (hf : FreshReqs s mems) (hfl : FreshLock s lock)
    (ht : Tally s) (hst : Standing s ((v, p) :: places s)) (hg : s.freedLocks = s.givenLocks)
    (hk : (s.pkts p).type = .freeLock → s.lockKey (s.pkts p).arg1 = 0 → baddr (s.pkts p).arg1 = 0) : Settled s' := by
  have hv : v ∈ s.volList := hst.home _ List.mem_cons_self
  cases ho with
  | replied s₁ hq hl hgiv he =>
    have hlend : Lends s s₁ := by
      obtain hl | ⟨-, rfl⟩ := hl
      · exact .of_books ht hl hq
      · exact ht.copyDir hv hfl
    have hsame := hq.samePkts
    have hvl : s₁.volList = s.volList := hq.volList
    rw [he]
    refine settled_reply hlend.tally ?_ (hvl ▸ hv) ?_ (fun htf => ?_) ?_ none
    · rw [hq.places]
      exact hst.tail.quiet hq hlend.live
    · exact hsame.back (List.Perm.of_eq hvl.symm).subset (hst.back _ List.mem_cons_self)
    · rw [hq.places]
      exact hst.notMem ((hsame p).1.symm.trans htf)
    · rw [givenLock_nil (fun htf => ?_) (fun hfh hres => ?_), List.append_nil, hlend.freed, hg]
      · exact hq.givenLocks.symm
      · rw [hq.arg1]
        exact hk (hq.type.symm.trans htf) (hgiv.1 (hq.type.symm.trans htf))
      · rw [hgiv.2 (hq.type.symm.trans hfh)] at hres
        exact absurd hres (by decide)
  | asked s₁ r hq hl hsub ha hne =>
    have hlend := Lends.of_books ht hl hq
    refine settled_asks hlend.tally ha (fun a hm => (hq.core hc).fresh (hq.freshReqs hf) (hsub.subset hm)) ?_ ?_
    · rw [hq.places]
      exact hst.quiet hq hlend.live
    · rw [hlend.freed, hg]
      exact hq.givenLocks.symm
  | wrote s₁ new hq hl hsub ha htw _ _ =>
    have hlend := Lends.of_books ht hl hq
    refine settled_asks hlend.tally ha (fun a hm => (hq.core hc).fresh (hq.freshReqs hf) (hsub.subset hm)) ?_ ?_
    · rw [hq.places]
      refine (hst.quiet hq hlend.live).more (by rw [hq.type, htw]; decide) fun m hm => ?_
      obtain ⟨-, -, rfl⟩ := List.mem_map.1 hm
      rfl
    · rw [hlend.freed, hg]
      exact hq.givenLocks.symm
  | ended s₁ r hsub ha hte _ he =>
    have hs₁ := settled_asks ht ha (fun a hm => hc.fresh hf (hsub.subset hm)) hst hg
    have hpkts : s₁.pkts = s.pkts := ha.pkts
    have hvl : s₁.volList = s.volList := ha.volList
    have hte₁ : (s₁.pkts p).type = .end := by rw [hpkts, hte]
    rw [he]
    refine settled_reply hs₁.tally hs₁.standing (hvl ▸ hv) (fun w hw => ?_) (fun htf => ?_) ?_ none
    · rw [hvl]
      rw [hpkts] at hw ⊢
      exact hst.back _ List.mem_cons_self w hw
    · cases hte₁.symm.trans htf
    · rw [givenLock_of_ne (by rw [hte₁]; decide) (by rw [hte₁]; decide), List.append_nil]
      exact hs₁.given

/-! ## Responses -/

/-- What comes of the locks when the packet of a response is replied to: what it has given back is freed. -/
theorem LockEffect.settles (he : LockEffect v res p lock s s₁) (hq : Quiet p s s₁) (ht : Tally s)
    (hst : Standing s ((v, p) :: L)) (hf : FreshLock s lock) (hfh : (s.pkts p).type = .fhFromLock → res.res1 = dosTrue →
      baddr (s.pkts p).arg2 = 0 ∧ NoLock s (baddr (s.pkts p).arg1)) :
    Tally s₁ ∧ Standing s₁ L ∧ s₁.freedLocks = s.freedLocks ++ State.givenLock v (s₁.pkts p) := by
  have hv : v ∈ s.volList := hst.home _ List.mem_cons_self
  have hlends : Lends s s₁ → State.givenLock v (s₁.pkts p) = [] →
      Tally s₁ ∧ Standing s₁ L ∧ s₁.freedLocks = s.freedLocks ++ State.givenLock v (s₁.pkts p) := fun hlend hnil =>
    ⟨hlend.tally, hst.tail.quiet hq hlend.live, by rw [hnil, List.append_nil, hlend.freed]⟩
  unfold LockEffect at he
  cases hty : (s.pkts p).type with
  | locateObject | parent | parentFh =>
    rw [hty] at he
    rw [he] at hq hlends ⊢
    refine hlends (ht.locateObjectReply hv hf) (givenLock_of_ne ?_ ?_ v)
    all_goals
      rw [hq.type, hty]
      decide
  | createDir =>
    rw [hty] at he
    refine hlends (ht.createDirReply hv hf he) (givenLock_of_ne ?_ ?_ v)
    all_goals
      rw [hq.type, hty]
      decide
  | freeLock =>
    rw [hty] at he
    have hgiven : State.givenLock v (s₁.pkts p) = owes v (s.pkts p) := by
      unfold State.givenLock owes
      rw [hq.type, hq.arg1, hty]
      split <;> rfl
    by_cases hz : baddr (s.pkts p).arg1 = 0
    · have hnil : owes v (s.pkts p) = [] := owes_of_ne (fun _ => hz) v
      refine hlends ?_ (hgiven.trans hnil)
      rw [he]
      unfold State.actionFreeLockReply
      dsimp only
      rw [freeLock_other s v (.inl hz), ite_self]
      exact ht.lends.congr rfl rfl rfl rfl rfl fun _ => rfl
    · have howes : owes v (s.pkts p) = [(baddr (s.pkts p).arg1, v)] := if_pos ⟨hty, hz⟩
      have hne : (s.pkts p).arg1 ≠ 0 := fun hx => hz (by rw [hx]; rfl)
      have hcons := State.owed_cons s (v, p) L
      rw [howes] at hcons
      have hlive : (baddr (s.pkts p).arg1, v) ∈ s.liveLocks :=
        hst.live _ (by rw [hcons]; exact List.mem_cons_self)
      obtain ⟨htally, hfreed, herase⟩ := ht.freeLock hlive
      have hs₁ : s₁ = (s.freeLock v (baddr (s.pkts p).arg1)).setRes1 p dosTrue := by
        rw [he]
        unfold State.actionFreeLockReply
        dsimp only
        rw [if_pos hne]
      refine ⟨?_, ?_, ?_⟩
      · rw [hs₁]
        exact htally.congr rfl rfl rfl rfl (fun _ => rfl) fun _ _ => rfl
      · refine hst.tail.congr hq.samePkts (List.Perm.of_eq hq.volList.symm).subset fun x hx => ?_
        have hnd := hst.owed
        rw [hcons] at hnd
        have hxl : x ≠ (baddr (s.pkts p).arg1, v) := fun hx' => (List.nodup_cons.1 hnd).1 (hx' ▸ hx)
        rw [hs₁]
        change x ∈ (s.freeLock v _).liveLocks
        rw [herase]
        exact (List.mem_erase_of_ne hxl).2 (hst.tail.live x hx)
      · rw [hgiven, howes, hs₁]
        exact hfreed
  | fhFromLock =>
    rw [hty] at he
    have hnot : (s₁.pkts p).type ≠ .freeLock := by
      rw [hq.type, hty]
      decide
    unfold State.actionFhFromLockReply at he
    dsimp only at he
    by_cases hres : res.res1 = dosTrue
    · obtain ⟨hnull, hno⟩ := hfh hty hres
      have hfree := freeLock_other { s with mem := setLong s.mem (baddr (s.pkts p).arg1 + offsetofFhArg1) res.res2 } v hno
      rw [if_pos hres, hfree] at he
      refine hlends ?_ (givenLock_nil (fun hx => absurd hx hnot) (fun _ _ => ?_) v)
      · rw [he]
        exact ht.lends.congr rfl rfl rfl rfl rfl fun _ => rfl
      · rw [he]
        unfold State.setRes State.setPkt
        dsimp only
        rw [Function.update_self]
        exact hnull
    · rw [if_neg hres] at he
      refine hlends ?_ (givenLock_nil (fun hx => absurd hx hnot) (fun _ hx => ?_) v)
      · rw [he]
        exact ht.lends.congr rfl rfl rfl rfl rfl fun _ => rfl
      · rw [he, setRes_res1] at hx
        exact absurd hx hres
  | _ =>
    rw [hty] at he
    refine hlends (.of_books ht he hq) (givenLock_of_ne ?_ ?_ v)
    all_goals
      rw [hq.type, hty]
      simp

/-- The last response takes the packet out of its place. -/
theorem places_unlinked (hu : res.req ∈ s.unanswered) (hm : s.more res = false) :
    (places s).Perm (((s.reqs res.req).volume, (s.reqs res.req).pkt) :: places (s.unlinked res)) := by
  unfold places
  exact (((unlinked_perm hu hm).map _).append_left _).trans List.perm_middle

theorem Answered.settled (ho : Answered v res p lock (s.unlinked res) s') (h : Settled s) (hfit : Fit s)
    (hu : res.req ∈ s.unanswered) (hf : FreshLock s lock) (hv : (s.reqs res.req).volume = v)
    (hp : (s.reqs res.req).pkt = p) (hfh : (s.pkts p).type = .fhFromLock → res.res1 = dosTrue →
      baddr (s.pkts p).arg2 = 0 ∧ NoLock s (baddr (s.pkts p).arg1)) : Settled s' := by
  have htally : Tally (s.unlinked res) := h.tally.books rfl rfl
  have hun : ∀ {L}, Standing s L → Standing (s.unlinked res) L := fun hst =>
    hst.congr (fun _ => ⟨rfl, rfl, rfl⟩) (List.Subset.refl _) hst.live
  cases ho with
  | awaited hq hl _ _ =>
    have hlend := Lends.of_books htally hl hq
    refine ⟨hlend.tally, ?_, ?_⟩
    · rw [hq.places]
      refine Standing.quiet ?_ hq hlend.live
      cases hm : s.more res with
      | true =>
        have hsame : places (s.unlinked res) = places s := by
          unfold places
          rw [unlinked_more hm]
          rfl
        rw [hsame]
        exact hun h.standing
      | false => exact hun (h.standing.perm (places_unlinked hu hm).symm).tail
    · rw [hlend.freed, hq.givenLocks]
      exact h.given
  | replied s₁ hq hl hz he =>
    have hst : Standing (s.unlinked res) ((v, p) :: places (s.unlinked res)) := by
      have hperm := places_unlinked hu (hfit.last hu hp hz)
      rw [hv, hp] at hperm
      exact hun (h.standing.perm hperm.symm)
    obtain ⟨ht₁, hst₁, hfreed⟩ := hl.settles hq htally hst hf hfh
    have hvl : s₁.volList = s.volList := hq.volList
    have hsame := hq.samePkts
    rw [he]
    refine settled_reply ht₁ (by rw [hq.places]; exact hst₁) (hvl ▸ hst.home _ List.mem_cons_self) ?_ (fun htf => ?_) ?_ _
    · exact hsame.back (List.Perm.of_eq hvl.symm).subset (hst.back _ List.mem_cons_self)
    · rw [hq.places]
      exact hst.notMem ((hsame p).1.symm.trans htf)
    · rw [hfreed, hq.givenLocks]
      exact congrArg (· ++ State.givenLock v (s₁.pkts p)) h.given

/-! ## Runs -/

/-- What holds of the client all the time. -/
structure Accounted (s : State) : Prop where
  core : Core s
  fit : Fit s
  settled : Settled s

/-- A packet arrives. -/
theorem Settled.arrive {pkt : DosPacket} (h : Settled s) (hv : v ∈ s.volList) (hd : pkt.port.isDos = true)
    (hun : ∀ r ∈ s.queued ++ s.unanswered, (s.reqs r).pkt ≠ p) (hg : GivesBack s (.arrive v p pkt))
    (hs : step s (.arrive v p pkt) = some s') : Settled s' := by
  cases hs
  obtain ⟨hmsgs, howes⟩ := hg
  have hne : ∀ m ∈ places s, m.2 ≠ p := by
    intro m hm
    obtain hm | hm := List.mem_append.1 hm
    · exact hmsgs m hm
    · obtain ⟨r, hr, rfl⟩ := List.mem_map.1 hm
      exact hun r hr
  have hold : ∀ q, q ≠ p → (s.setPkt p pkt).pkts q = s.pkts q := fun q hq => Function.update_of_ne hq _ _
  have hself : (s.setPkt p pkt).pkts p = pkt := Function.update_self ..
  have howed : (s.setPkt p pkt).owed (places s) = s.owed (places s) := by
    unfold State.owed
    refine List.flatMap_congr fun m hm => ?_
    rw [hold m.2 (hne m hm)]
  have hcons : (s.setPkt p pkt).owed ((v, p) :: places s) = owes v pkt ++ s.owed (places s) := by
    rw [State.owed_cons, hself, howed]
  have hst := h.standing
  have hnew : Standing (s.setPkt p pkt) ((v, p) :: places s) := by
    refine ⟨fun m hm => ?_, fun m hm w hw => ?_, fun q hq => ?_, ?_, fun x hx => ?_⟩
    · obtain rfl | hm := List.mem_cons.1 hm
      · exact hv
      · exact hst.home m hm
    · obtain rfl | hm := List.mem_cons.1 hm
      · rw [hself] at hw
        rw [hw] at hd
        cases hd
      · rw [hold m.2 (hne m hm)] at hw ⊢
        exact hst.back m hm w hw
    · have hnot : p ∉ (places s).map Prod.snd := fun hm => by
        obtain ⟨m, hm, he⟩ := List.mem_map.1 hm
        exact hne m hm he
      rw [List.map_cons]
      by_cases hqp : q = p
      · rw [hqp, List.count_cons_self, List.count_eq_zero.2 hnot]
      · rw [List.count_cons_of_ne (Ne.symm hqp)]
        rw [hold q hqp] at hq
        exact hst.once q hq
    · rw [hcons]
      refine List.nodup_append.2 ⟨?_, hst.owed, fun a ha b hb he => (howes a ha).2 (he ▸ hb)⟩
      unfold owes
      split
      · exact List.nodup_singleton _
      · exact List.nodup_nil
    · rw [hcons] at hx
      obtain hx | hx := List.mem_append.1 hx
      · exact (howes x hx).1
      · exact hst.live x hx
  have hsame : SamePkts (s.setPkt p pkt) { s.setPkt p pkt with
      msgs := s.msgs ++ [(v, p)], out := s.out ++ [p], arrived := s.arrived ++ [p] } := fun _ => ⟨rfl, rfl, rfl⟩
  refine ⟨h.tally.books rfl rfl, (hnew.congr hsame (List.Subset.refl _) hnew.live).perm ?_, h.given⟩
  change (s.msgs ++ [(v, p)] ++ _).Perm _
  rw [List.append_assoc]
  exact List.perm_middle

/-- **One step.** -/
theorem Accounted.step (h : Accounted s) (hst : Steady s e) (hg : GivesBack s e) (hcnt : Counted s e) :
    ∃ s', step s e = some s' ∧ Accounted s' := by
  obtain ⟨hc, hfit, hset⟩ := h
  obtain ⟨s', hs, hc', hfit'⟩ := hst.step hc hfit
  obtain ⟨hl, -, -, hun⟩ := hst
  refine ⟨s', hs, ?_⟩
  suffices hh : Settled s' from ⟨hc', hfit', hh⟩
  have hsame : ∀ {u : State}, u.pkts = s.pkts → SamePkts s u := fun hp q => by
    rw [hp]
    exact ⟨rfl, rfl, rfl⟩
  cases e with
  | arrive v p pkt => exact hset.arrive hl.1 hl.2.2 hun hg hs
  | dos v mems lock =>
    obtain ⟨m, hm, hout⟩ := dos_outcome hc hl.2.1 hs
    have hfound := List.find?_some hm
    have hv : m.1 = v := of_decide_eq_true hfound
    have hperm : (places s).Perm ((v, m.2) :: places { s with msgs := s.msgs.erase m }) := by
      rw [← hv]
      exact (List.perm_cons_erase (List.mem_of_find?_eq_some hm)).append_right _
    have hstand := (hset.standing.perm hperm.symm).congr (hsame (u := { s with msgs := s.msgs.erase m }) rfl)
      (List.Subset.refl _) (hset.standing.perm hperm.symm).live
    exact hout.settled (hc.congr rfl rfl rfl rfl rfl) hl.2.1 hl.2.2 (hset.tally.books rfl rfl) hstand hset.given
      (hcnt m hm)
  | response res lock m =>
    obtain ⟨hk, rfl⟩ | ⟨-, rfl⟩ | ⟨⟨hk, hk'⟩, hr⟩ := receiveResponse_cases hs
    · obtain ⟨ht, hsub⟩ := hset.tally.handleMountVolume (hcnt.1 hk) hl.2.2.2
      obtain ⟨vols, volList, he⟩ := handleMountVolume_eq s (res.res1 >>> 16).toUInt16 m
      rw [he] at ht hsub ⊢
      exact ⟨ht, hset.standing.congr (hsame rfl) hsub hset.standing.live, hset.given⟩
    · have ht := hset.tally.handleUnmountVolume (res.res1 >>> 16).toUInt16
      obtain ⟨vols, he⟩ := handleUnmountVolume_eq s (res.res1 >>> 16).toUInt16
      rw [he] at ht ⊢
      exact ⟨ht, hset.standing.congr (hsame rfl) (List.Subset.refl _) hset.standing.live, hset.given⟩
    · have hu := (hl.2.2.1.resolve_left hk).resolve_left hk'
      exact (receiveRemoteMessage_outcome rfl hr).settled hset hfit hu hl.2.1 rfl rfl (hcnt.2 hu)
  | readerError =>
    cases hs
    exact ⟨hset.tally.books rfl rfl, hset.standing.congr (hsame rfl) (List.Subset.refl _) hset.standing.live, hset.given⟩
  | writerReply =>
    obtain ⟨-, rfl⟩ | ⟨r, l, hq, rfl⟩ := writerReply_eq hc hs
    · exact ⟨hset.tally.books rfl rfl, hset.standing.congr (hsame rfl) (List.Subset.refl _) hset.standing.live,
        hset.given⟩
    · have hstand := hset.standing.congr (hsame (u := { s with writeReady := true }.sending r) rfl)
        (List.Subset.refl _) hset.standing.live
      exact ⟨hset.tally.books rfl rfl, hstand.perm (places_perm rfl rfl (sending_perm hq)), hset.given⟩
  | poke mem locks =>
    cases hs
    refine ⟨?_, hset.standing.congr (hsame rfl) (List.Subset.refl _) hset.standing.live, hset.given⟩
    exact hset.tally.congr rfl rfl rfl rfl (fun _ => rfl) fun x hx => congrArg FsFileLock.magic (hl x hx)

theorem accounted_start (mem : Addr → UInt8) (pkts : Addr → DosPacket) (reqs : Addr → FsRequest)
    (locks : Addr → FsFileLock) (vols : Addr → Volume) (links : Links Node) :
    Accounted (start mem pkts reqs locks vols links) where
  core := core_start ..
  fit := fit_start mem pkts reqs locks vols links
  settled :=
    { tally := ⟨fun _ h => (List.not_mem_nil h).elim, .refl _, fun _ h => (List.not_mem_nil h).elim, List.nodup_nil,
        Nat.zero_le _, fun _ h => (List.not_mem_nil h).elim⟩
      standing := ⟨fun _ h => (List.not_mem_nil h).elim, fun _ h => (List.not_mem_nil h).elim, fun _ _ => Nat.zero_le _,
        List.nodup_nil, fun _ h => (List.not_mem_nil h).elim⟩
      given := rfl }

/-- When everything was given back, no locks are left, and the client can quit. -/
theorem Settled.locksExact (h : Settled s) : LocksExact s := by
  refine ⟨h.tally.count, h.tally.allocated, h.given, fun hall => ?_⟩
  have hnil : s.liveLocks = [] := by
    have hlen := (h.tally.allocated.symm.trans hall).length_eq
    rw [h.given, List.length_append] at hlen
    exact List.length_eq_zero_iff.1 (by omega)
  refine List.all_eq_true.2 fun v hv => ?_
  have hcount := h.tally.count v hv
  unfold State.liveOf at hcount
  rw [hnil] at hcount
  rw [Bool.not_eq_true', decide_eq_false_iff_not, gt_iff_lt, Int16.lt_iff_toInt_lt, hcount]
  exact lt_irrefl _

/-- **The locks of a run.** -/
theorem locks_exact (mem : Addr → UInt8) (pkts : Addr → DosPacket) (reqs : Addr → FsRequest)
    (locks : Addr → FsFileLock) (vols : Addr → Volume) (links : Links Node) {es : List Event}
    (h : Along (fun s e => (Steady s e ∧ GivesBack s e) ∧ Counted s e) step (start mem pkts reqs locks vols links) es) :
    ∃ t, runs step (start mem pkts reqs locks vols links) es = some t ∧ LocksExact t := by
  obtain ⟨t, ht, ha⟩ := runs_some Accounted (fun s e h hst => h.step hst.1.1 hst.1.2 hst.2) (accounted_start ..) h
  exact ⟨t, ht, ha.settled.locksExact⟩

/-- A lock of the root is got with `ACTION_COPY_DIR` and given back. -/
def rootLock : List Event :=
  [mountFirst, .arrive 4096 100 ⟨.dos 0, .copyDir, 0, 0, 0, 0, 0, 0⟩, .dos 4096 [] (some 400),
    .arrive 4096 101 ⟨.dos 0, .freeLock, 0, 0, 100, 0, 0, 0⟩, .dos 4096 [] none]

/-- It is not freed, and the client cannot quit. -/
theorem rootLock_kept : Along (fun s e => Steady s e ∧ GivesBack s e) step blank rootLock ∧
    ∃ t, runs step blank rootLock = some t ∧ t.allocatedLocks.Perm t.givenLocks ∧ t.canQuit = false ∧ ¬LocksExact t := by
  refine ⟨by decide +kernel, ?_⟩
  have hend : (runs step blank rootLock).map (fun t => (t.allocatedLocks, t.givenLocks, t.canQuit)) =
      some ([(400, 4096)], [(400, 4096)], false) := by decide +kernel
  obtain ⟨t, ht, hb⟩ := Option.map_eq_some_iff.1 hend
  obtain ⟨ha, hb⟩ := Prod.mk.inj hb
  obtain ⟨hg, hq⟩ := Prod.mk.inj hb
  have hperm : t.allocatedLocks.Perm t.givenLocks := by rw [ha, hg]
  refine ⟨t, ht, hperm, hq, fun hx => ?_⟩
  rw [hx.quit hperm] at hq
  cases hq

/-- A lock is got with `ACTION_LOCATE_OBJECT`, a second one with `ACTION_COPY_DIR`, and both are given back. -/
def fileLocks : List Event :=
  [mountFirst, .arrive 4096 100 ⟨.dos 0, .locateObject, 0, 0, 0, 500, 0, 0⟩, .dos 4096 [some 200] none, .writerReply,
    .response ⟨200, 7, 0, fun _ => 0⟩ (some 400) noMounting,
    .arrive 4096 101 ⟨.dos 0, .copyDir, 0, 0, 100, 0, 0, 0⟩, .dos 4096 [] (some 440),
    .arrive 4096 100 ⟨.dos 0, .freeLock, 0, 0, 100, 0, 0, 0⟩, .dos 4096 [some 300] none, .writerReply,
    respond 300 dosTrue 0,
    .arrive 4096 101 ⟨.dos 0, .freeLock, 0, 0, 110, 0, 0, 0⟩, .dos 4096 [some 200] none, .writerReply,
    respond 200 dosTrue 0]

theorem fileLocks_exact : ∃ t, runs step blank fileLocks = some t ∧ LocksExact t :=
  locks_exact _ _ _ _ _ _ (by decide +kernel)

end AmiPiBorg.Fs
