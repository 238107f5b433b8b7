import AmiPiBorg.Fs.Served

/-!
# Errors of a read or a write

The handler reports an error with -1 in `r_Res1` and a code in `r_Res2`. As `r_Res1` is unsigned, `FS_ActionReadReply`
takes the -1 for a number of bytes and copies them first. `FS_ActionWriteReply` replies to the packet with the error, and
goes on to count the answers to the chunks that are left. `error_reported` says when an error is reported cleanly all the
same.
-/

set_option autoImplicit false

namespace AmiPiBorg.Fs

open ProgLib

variable {s s' t u : State} {v p : Addr} {M : Set Addr} {err res : FsResponse} {more past rest : List FsResponse}
  {lock : Option Addr} {m : State.Mounting}

/-! ## What is asked of an error -/

/-- The handler reports an error. -/
structure IsError (err : FsResponse) : Prop where
  res1 : err.res1 = minusOne
  code : err.res2 ≠ 0
  last : err.res2 ≠ minusOne

/-- The packet gets the error and nothing is copied, whatever follows the answer in the buffer. -/
def Reported (s : State) (p : Addr) (err : FsResponse) (s' : State) : Prop :=
  s'.mem = s.mem ∧ s'.replied = s.replied ++ [p] ∧ (s'.pkts p).res1 = minusOne ∧ (s'.pkts p).res2 = err.res2

/-- From `s` on, answers neither reply to the packet nor change it. -/
def LeftAlone (s : State) (p : Addr) (more : List FsResponse) : Prop :=
  ∀ past res rest t lock m u, more = past ++ res :: rest → Served p ∅ s past (res :: rest) t →
    t.receiveResponse res lock m = some u → u.pkts p = t.pkts p ∧ u.replied.count p = t.replied.count p

/-- **The error is reported cleanly**, and the answers to the other chunks, `more`, leave the packet alone. -/
def ReportsError (s : State) (p : Addr) (err : FsResponse) (more : List FsResponse) : Prop :=
  ∀ data lock m, ∃ s', s.receiveResponse { err with data := data } lock m = some s' ∧ Reported s p err s' ∧
    LeftAlone s' p more

/-! ## An error of a read -/

/-- Nothing is copied beyond the buffer of a read. -/
theorem receive_read_none (hv : ValidAddr res.req) (hp : (s.reqs res.req).pkt = p) (ht : (s.pkts p).type = .read)
    (hz : res.res1 > 0) (hfit : (s.pkts p).arg3.toNat < (s.pkts p).res1.toNat + res.res1.toNat) (lock : Option Addr)
    (m : State.Mounting) : s.receiveResponse res lock m = none := by
  have hp' : ((s.unlinked res).reqs res.req).pkt = p := hp
  have ht' : ((s.unlinked res).pkts p).type = .read := ht
  have hfit' : ((s.unlinked res).pkts p).arg3.toNat < ((s.unlinked res).pkts p).res1.toNat + res.res1.toNat := hfit
  rw [receiveResponse_request hv]
  unfold State.receiveRemoteMessage
  rw [hp']
  dsimp only
  rw [ht']
  dsimp only [State.actionReadReply]
  rw [if_pos hz, if_pos hfit']
  rfl

/-- **An error of a read is not reported cleanly**: there is data that it copies. -/
theorem read_not_reported (hv : ValidAddr err.req) (hp : (s.reqs err.req).pkt = p) (ht : (s.pkts p).type = .read)
    (he : IsError err) : ¬ReportsError s p err more := by
  intro h
  let dest := (s.pkts p).arg2 + (s.pkts p).res1
  let ans : FsResponse := { err with data := fun _ => s.mem dest + 1 }
  have hres1 : ans.res1 = minusOne := he.res1
  have hpos : ans.res1 > 0 := by rw [hres1]; decide
  have hv : ValidAddr ans.req := hv
  have hp : (s.reqs ans.req).pkt = p := hp
  obtain ⟨s', hs', ⟨hmem, -⟩, -⟩ := h ans.data none noMounting
  obtain hfit | hfit := Nat.lt_or_ge (s.pkts p).arg3.toNat ((s.pkts p).res1.toNat + ans.res1.toNat)
  · cases (receive_read_none hv hp ht hpos hfit none _).symm.trans hs'
  · obtain ⟨u, hu, -, hcopy⟩ := receive_read hv hp ht (fun _ => hfit) none noMounting
    cases hu.symm.trans hs'
    have hin : (dest - dest).toNat < ans.res1.toNat := by
      rw [UInt32.sub_self, hres1]
      decide
    have hne : s.mem dest + 1 = s.mem dest := by
      rw [hmem] at hcopy
      exact (if_pos hin).symm.trans (congrFun hcopy dest).symm
    exact absurd hne (by simp)

/-! ## An error of a write -/

/-- An answer to a write leaves the packet alone exactly if both of its results are 0. -/
theorem answered_same_iff {pkt : DosPacket} : (pkt.answered v res = pkt ∧ res.res2 = 0) ↔ res.res1 = 0 ∧ res.res2 = 0 := by
  refine and_congr_left fun hz => ?_
  unfold DosPacket.answered DosPacket.counted
  rw [if_pos hz]
  split
  case isTrue hpos =>
    have hne : res.res1 ≠ 0 := fun he => by simp [he] at hpos
    refine iff_of_false (fun he => hne ?_) hne
    have hres : pkt.res1 + res.res1 = pkt.res1 := congrArg DosPacket.res1 he
    simpa using hres
  case isFalse hzero =>
    refine iff_of_true rfl ?_
    exact UInt32.toNat_inj.1 (Nat.eq_zero_of_not_pos fun h => hzero (UInt32.lt_iff_toNat_lt.2 h))

/-- The packet of a write stays one of a write. -/
theorem Served.type_write (ht : (s.pkts p).type = .write) (hfor : For p s more) (h : Served p M s past rest t)
    (has : more = past ++ rest) : (t.pkts p).type = .write ∧ For p t rest := by
  refine h.induct (I := fun _ t => (t.pkts p).type = .write) hfor ht (fun past rest t u _ _ hI he => ?_) ?_ has
  · rw [he.pkt]
    exact hI
  · intro past res rest lock m t u _ hft hI hu
    have ha := hft.write hI hu
    refine ⟨ha.reqs, ?_⟩
    rw [ha.pkt, (DosPacket.answered_args ..).1]
    exact hI

/-- **Answers to a write leave its packet alone** exactly if they have nothing to say. -/
theorem leftAlone_iff (ht : (s.pkts p).type = .write) (hfor : For p s more) :
    LeftAlone s p more ↔ ∀ res ∈ more, res.res1 = 0 ∧ res.res2 = 0 := by
  have hstep : ∀ {past res rest t lock m u}, more = past ++ res :: rest → Served p ∅ s past (res :: rest) t →
      t.receiveResponse res lock m = some u → ((u.pkts p = t.pkts p ∧ u.replied.count p = t.replied.count p) ↔
        res.res1 = 0 ∧ res.res2 = 0) := by
    intro past res rest t lock m u has hs hu
    obtain ⟨htype, hft⟩ := hs.type_write ht hfor has
    have ha := hft.write htype hu
    have hsame : ((t.pkts p).answered (t.reqs res.req).volume res = t.pkts p ∧ res.res2 = 0) ↔
        res.res1 = 0 ∧ res.res2 = 0 := answered_same_iff
    rw [ha.pkt, ha.replied, ← hsame]
    refine and_congr_right fun _ => ?_
    by_cases hz : res.res2 = 0 <;> simp [hz]
  refine ⟨fun h res hres => ?_, fun h past res rest t lock m u has hs hu => ?_⟩
  · obtain ⟨past, rest, has⟩ := List.append_of_mem hres
    have hdef : ∀ past rest t, Served p ∅ s past rest t → more = past ++ rest → ∀ res ∈ rest, ∀ lock m,
        ∃ u, t.receiveResponse res lock m = some u := by
      intro past rest t hs has res hres
      obtain ⟨htype, hft⟩ := hs.type_write ht hfor has
      exact hft.write_defined htype hres
    obtain ⟨t, hs⟩ := Served.reach hdef has
    obtain ⟨u, hu⟩ := hdef past _ t hs has res List.mem_cons_self none noMounting
    exact (hstep has hs hu).1 (h past res rest t none _ u has hs hu)
  · exact (hstep has hs hu).2 (h res (by rw [has]; simp))

/-- **The error of a write** gets into its packet. -/
theorem write_reported (hv : ValidAddr err.req) (hp : (s.reqs err.req).pkt = p) (ht : (s.pkts p).type = .write)
    (he : IsError err) (data : Nat → UInt8) (lock : Option Addr) (m : State.Mounting) :
    ∃ s', s.receiveResponse { err with data := data } lock m = some s' ∧ Reported s p err s' ∧
      (s'.pkts p).type = .write ∧ s'.reqs = s.reqs := by
  let ans : FsResponse := { err with data := data }
  obtain ⟨s', hs', ha, hmem⟩ := @receive_write s p ans hv hp ht lock m
  have hpkt : s'.pkts p = { (s.pkts p).counted err with
      res1 := err.res1, res2 := err.res2, port := .volume (s.reqs err.req).volume } := by
    rw [ha.pkt]
    exact (if_neg he.code).trans (if_neg he.last)
  refine ⟨s', hs', ⟨hmem, ha.replied.trans (congrArg (s.replied ++ ·) (if_neg he.code)), ?_, ?_⟩, ?_, ha.reqs⟩
  · rw [hpkt]
    exact he.res1
  · rw [hpkt]
  · rw [ha.pkt, (DosPacket.answered_args ..).1]
    exact ht

/-- **Errors are reported cleanly exactly if** they are those of a write, and the answers to its other chunks have
nothing to say. -/
theorem error_reported (hv : ValidAddr err.req) (hp : (s.reqs err.req).pkt = p)
    (ht : (s.pkts p).type = .read ∨ (s.pkts p).type = .write) (he : IsError err) (hmore : For p s more) :
    ReportsError s p err more ↔ (s.pkts p).type = .write ∧ ∀ res ∈ more, res.res1 = 0 ∧ res.res2 = 0 := by
  obtain ht | ht := ht
  · exact iff_of_false (read_not_reported hv hp ht he) fun h => by simp [ht] at h
  · have hleft : ∀ data lock m, ∃ s', s.receiveResponse { err with data := data } lock m = some s' ∧ Reported s p err s' ∧
        (LeftAlone s' p more ↔ ∀ res ∈ more, res.res1 = 0 ∧ res.res2 = 0) := by
      intro data lock m
      obtain ⟨s', hs', hr, htype, hreqs⟩ := write_reported hv hp ht he data lock m
      exact ⟨s', hs', hr, leftAlone_iff htype fun res hres => by rw [hreqs]; exact hmore res hres⟩
    refine ⟨fun h => ⟨ht, ?_⟩, fun h data lock m => ?_⟩
    · obtain ⟨s', hs', -, hiff⟩ := hleft (fun _ => 0) none noMounting
      obtain ⟨u, hu, -, hl⟩ := h (fun _ => 0) none noMounting
      cases hs'.symm.trans hu
      exact hiff.1 hl
    · obtain ⟨s', hs', hr, hiff⟩ := hleft data lock m
      exact ⟨s', hs', hr, hiff.2 h.2⟩

/-- A write of 600 bytes, whose two chunks are sent. -/
def twoChunks : List Event :=
  [mountFirst, .arrive 4096 100 ⟨.dos 0, .write, 0, 0, 7, 500, 600, 0⟩, .dos 4096 [some 200, some 300] none, .writerReply]

/-- A read of ten bytes, whose request is sent. -/
def oneRead : List Event :=
  [mountFirst, .arrive 4096 100 ⟨.dos 0, .read, 0, 0, 7, 500, 10, 0⟩, .dos 4096 [some 200] none]

/-- The disk is full. -/
def diskFull : FsResponse := ⟨200, minusOne, 221, fun _ => 0⟩

theorem diskFull_error : IsError diskFull := ⟨rfl, by decide, by decide⟩

/-- What is known when the chunks are sent. -/
def ChunksSent (s : State) : Prop :=
  (s.reqs 200).pkt = 100 ∧ (s.reqs 300).pkt = 100 ∧ (s.pkts 100).type = .write

instance (s : State) : Decidable (ChunksSent s) := by unfold ChunksSent; infer_instance

theorem ChunksSent.forPacket (h : ChunksSent s) (res1 res2 : UInt32) : For 100 s [⟨300, res1, res2, fun _ => 0⟩] := by
  intro res hres
  rw [List.mem_singleton.1 hres]
  exact ⟨by simp [ValidAddr, mountVolumeKey, unmountVolumeKey], h.2.1⟩

/-- The first chunk fails, and the answer to the second one has nothing to say. -/
theorem error_reported_write : ∃ s, runs step blank twoChunks = some s ∧
    ReportsError s 100 diskFull [⟨300, 0, 0, fun _ => 0⟩] := by
  have hrun : (runs step blank twoChunks).any (fun s => ChunksSent s) = true := by decide +kernel
  obtain ⟨s, hs, h⟩ := (Option.any_eq_true _ _).1 hrun
  have h : ChunksSent s := of_decide_eq_true h
  exact ⟨s, hs, (error_reported (by decide) h.1 (.inr h.2.2) diskFull_error (h.forPacket 0 0)).2 ⟨h.2.2, by simp⟩⟩

/-- **Errors that are not reported cleanly**: after the error of the first chunk, the answer to the second one adds to
the -1 in the packet and replies to it again. The error of a read copies beyond the buffer. -/
theorem error_not_reported : (∃ s, runs step blank twoChunks = some s ∧
      ¬ReportsError s 100 diskFull [⟨300, 88, minusOne, fun _ => 0⟩] ∧
      ∃ t, runs step s [respond 200 minusOne 221, respond 300 88 minusOne] = some t ∧ t.replied = [100, 100] ∧
        (t.pkts 100).res1 = 87 ∧ (t.pkts 100).res2 = 0) ∧
    ∃ s, runs step blank oneRead = some s ∧ ¬ReportsError s 100 diskFull [] := by
  have hwrite : (runs step blank twoChunks).any (fun s => ChunksSent s ∧
      (runs step s [respond 200 minusOne 221, respond 300 88 minusOne]).any (fun t => t.replied = [100, 100] ∧
        (t.pkts 100).res1 = 87 ∧ (t.pkts 100).res2 = 0) = true) = true := by decide +kernel
  have hread : (runs step blank oneRead).any (fun s => (s.reqs 200).pkt = 100 ∧ (s.pkts 100).type = .read) = true := by
    decide +kernel
  refine ⟨?_, ?_⟩
  · obtain ⟨s, hs, h⟩ := (Option.any_eq_true _ _).1 hwrite
    obtain ⟨hsent, h⟩ := of_decide_eq_true h
    obtain ⟨t, ht, h⟩ := (Option.any_eq_true _ _).1 h
    refine ⟨s, hs, fun hr => ?_, t, ht, of_decide_eq_true h⟩
    obtain ⟨s', hs', -, hleft⟩ := hr (fun _ => 0) none noMounting
    obtain ⟨u, hu, -, htype, hreqs⟩ := @write_reported s 100 diskFull (by decide) hsent.1 hsent.2.2 diskFull_error
      (fun _ => 0) none noMounting
    cases hs'.symm.trans hu
    have hfor : For 100 s' [⟨300, 88, minusOne, fun _ => 0⟩] := fun res hres => by
      rw [hreqs]
      exact hsent.forPacket 88 minusOne res hres
    have hzero := (leftAlone_iff htype hfor).1 hleft _ (List.mem_singleton_self _)
    exact absurd hzero.1 (by decide)
  · obtain ⟨s, hs, h⟩ := (Option.any_eq_true _ _).1 hread
    obtain ⟨hp, ht⟩ := of_decide_eq_true h
    exact ⟨s, hs, read_not_reported (by decide) hp ht diskFull_error⟩

end AmiPiBorg.Fs
