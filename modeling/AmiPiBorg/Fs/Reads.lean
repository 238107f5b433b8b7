import Mathlib.Data.List.GetD
import AmiPiBorg.Fs.Served

/-!
# A read, from the packet to the reply

The answers to a read carry pieces of the data. `FS_ActionReadReply` copies each piece behind the ones before, for which
it keeps the number of bytes in the result of the packet: what is in memory is `received`. The last answer replies to
the packet (`read_reassembled`).
-/

set_option autoImplicit false

namespace AmiPiBorg.Fs

open ProgLib

variable {s s' t : State} {v p r dest : Addr} {M : Set Addr} {mem : Addr → UInt8} {f g : Nat → UInt8} {k : UInt32}
  {n : Nat} {res : FsResponse} {as past rest : List FsResponse}

/-! ## Copies one behind the other -/

/-- A second copy goes behind the first one. -/
theorem copyMem_behind (h : k.toNat + n ≤ 2 ^ 32) : copyMem (copyMem mem f dest k.toNat) g (dest + k) n =
    copyMem mem (fun i => if i < k.toNat then f i else g (i - k.toNat)) dest (k.toNat + n) := by
  funext a
  have hx : (a - (dest + k)).toNat = (2 ^ 32 - k.toNat + (a - dest).toNat) % 2 ^ 32 := by
    have hk := k.toNat_lt
    have hd := dest.toNat_lt
    simp only [UInt32.toNat_sub, UInt32.toNat_add]
    omega
  have hlt := (a - dest).toNat_lt
  unfold copyMem
  rw [hx]
  generalize (a - dest).toNat = x at hlt ⊢
  obtain hk | hk := Nat.lt_or_ge x k.toNat
  · have hout : ¬(2 ^ 32 - k.toNat + x) % 2 ^ 32 < n := by omega
    rw [if_neg hout, if_pos hk, if_pos (by omega)]
    exact (if_pos hk).symm
  · have hin : (2 ^ 32 - k.toNat + x) % 2 ^ 32 = x - k.toNat := by omega
    rw [hin, if_neg (Nat.not_lt.2 hk)]
    obtain hn | hn := Nat.lt_or_ge x (k.toNat + n)
    · rw [if_pos hn, if_pos (by omega)]
      exact (if_neg (Nat.not_lt.2 hk)).symm
    · rw [if_neg (by omega), if_neg (by omega)]

/-- What is copied somewhere can be read there. -/
theorem bytesAt_copyMem (h : n ≤ 2 ^ 32) : bytesAt (copyMem mem f dest n) dest n = (List.range n).map f := by
  refine List.map_congr_left fun i hi => ?_
  have hin : i < n := List.mem_range.1 hi
  have hoff : (dest + UInt32.ofNat i - dest).toNat = i := by
    rw [UInt32.add_comm, UInt32.add_sub_cancel, UInt32.toNat_ofNat_of_lt' (hin.trans_le h)]
  unfold copyMem
  rw [hoff, if_pos hin]

/-! ## What was received -/

/-- The data of the answers, one after the other. -/
def pieces (as : List FsResponse) : List UInt8 := as.flatMap fun a => (List.range a.res1.toNat).map a.data

theorem length_pieces (as : List FsResponse) : (pieces as).length = total as := by
  simp [pieces, total, List.length_flatMap]

theorem pieces_append (as bs : List FsResponse) : pieces (as ++ bs) = pieces as ++ pieces bs := List.flatMap_append

/-- The memory once the answers have come in. -/
def received (mem : Addr → UInt8) (dest : Addr) (as : List FsResponse) : Addr → UInt8 :=
  copyMem mem (fun i => (pieces as).getD i 0) dest (total as)

/-- One more piece. -/
theorem received_append (hk : k.toNat = total past) (h : total past + res.res1.toNat ≤ 2 ^ 32) :
    copyMem (received mem dest past) res.data (dest + k) res.res1.toNat = received mem dest (past ++ [res]) := by
  have htotal : total (past ++ [res]) = total past + res.res1.toNat := total_append past [res]
  unfold received
  rw [← hk] at h htotal ⊢
  rw [copyMem_behind h, htotal]
  funext a
  unfold copyMem
  refine if_ctx_congr Iff.rfl (fun ha => ?_) fun _ => rfl
  rw [pieces_append]
  dsimp only
  split
  case isTrue hi => rw [List.getD_append _ _ _ _ (by rwa [length_pieces, ← hk])]
  case isFalse hi =>
    have hle : (pieces past).length ≤ (a - dest).toNat := by
      rw [length_pieces, ← hk]
      exact Nat.not_lt.1 hi
    rw [List.getD_append_right _ _ _ _ hle, length_pieces, ← hk]
    have hlt : (a - dest).toNat - k.toNat < res.res1.toNat := by omega
    simp [pieces, hlt]

theorem bytesAt_received (h : total as ≤ 2 ^ 32) : bytesAt (received mem dest as) dest (total as) = pieces as := by
  unfold received
  rw [bytesAt_copyMem h]
  refine List.ext_getElem (by simp [length_pieces]) fun i hi hi' => ?_
  simp [hi']

/-- Behind that, nothing changes. -/
theorem received_beyond {a : Addr} (h : total as ≤ (a - dest).toNat) : received mem dest as a = mem a :=
  if_neg (Nat.not_lt.2 h)

/-! ## The answers -/

/-- **The answers to a read are counted**, and their data is in memory. -/
theorem Served.read (ht : (s.pkts p).type = .read) (hz : (s.pkts p).res1 = 0) (hfor : For p s as) (hend : Ending as)
    (hfit : total as ≤ (s.pkts p).arg3.toNat) (h : Served p M s past rest t) (has : as = past ++ rest) :
    (Summed p s past t ∧ ∀ a ∈ M, t.mem a = received s.mem (s.pkts p).arg2 past a) ∧ For p t rest := by
  let I (past : List FsResponse) (t : State) : Prop :=
    Summed p s past t ∧ ∀ a ∈ M, t.mem a = received s.mem (s.pkts p).arg2 past a
  refine h.induct (I := I) hfor ⟨.start hz, fun a _ => ?_⟩ (fun past rest t u _ _ hI he => ⟨hI.1.elsewhere he, ?_⟩) ?_ has
  · exact (received_beyond (Nat.zero_le _)).symm
  · exact fun a ha => (he.mem a ha).trans (hI.2 a ha)
  · intro past res rest lock m t u has hft hI hu
    obtain ⟨hv, hp⟩ := hft res List.mem_cons_self
    obtain ⟨hsum, hmem⟩ := hI
    have hle : total past + res.res1.toNat ≤ (s.pkts p).arg3.toNat := (total_le has).trans hfit
    have hlt : total past + res.res1.toNat < 2 ^ 32 := hle.trans_lt (UInt32.toNat_lt _)
    obtain ⟨u', hu', ha, hcopy⟩ := receive_read hv hp (hsum.type.trans ht) (fun _ => by rwa [hsum.res1, hsum.arg3]) lock m
    cases hu'.symm.trans hu
    refine ⟨ha.reqs, hsum.answered ha (hend.or has) hlt, fun a hm => ?_⟩
    rw [hcopy, hsum.arg2, ← received_append hsum.res1 hlt.le]
    unfold copyMem
    rw [hmem a hm]

/-- The request that `FS_ActionRead` makes. -/
def readRequest (s : State) (v p r : Addr) : FsRequest :=
  { newRequest s v p r .read 0 with arg1 := (s.pkts p).arg1, arg3 := (s.pkts p).arg3 }

/-- **What `FS_ActionRead` enqueues.** -/
theorem actionRead_eq (s : State) (v p r : Addr) : s.actionRead v p (some r) =
    ((s.setRes1 p 0).allocating r (readRequest s v p r)).enqueueRequest r := by
  have hot : (readRequest s v p r).ot = State.requestType 0 := rfl
  unfold State.actionRead
  exact request_eq rfl hot

/-- **A read is put together exactly and completed once**, by the last answer. The memory `M` is what nobody else writes
to meanwhile. -/
theorem read_reassembled (ht : (s.pkts p).type = .read) (hr : ValidAddr r) :
    (Core s → r ∉ s.live.map Prod.fst → ∃ s', s.actionRead v p (some r) = some s') ∧
      ∀ s', s.actionRead v p (some r) = some s' → ∀ as, (∀ a ∈ as, a.req = r) → Ending as →
        total as ≤ (s.pkts p).arg3.toNat → ∀ M past rest t, Served p M s' past rest t → as = past ++ rest →
          (∀ res ∈ rest, ∀ lock m, ∃ u, t.receiveResponse res lock m = some u) ∧
          t.replied.count p = s.replied.count p + (if rest = [] then 1 else 0) ∧
          (rest = [] → (t.pkts p).res1.toNat = total as) ∧
          ((∀ i < total past, (s.pkts p).arg2 + UInt32.ofNat i ∈ M) →
            bytesAt t.mem (s.pkts p).arg2 (total past) = pieces past) ∧
          ∀ a ∈ M, total past ≤ (a - (s.pkts p).arg2).toNat → t.mem a = s.mem a := by
  refine ⟨fun hc hnew => ?_, fun s' h as hreq hend hfit M past rest t hs has => ?_⟩
  · have hf : FreshReqs s [some r] := by
      refine ⟨List.nodup_singleton r, fun q hq => ?_⟩
      rw [List.mem_singleton.1 (show q ∈ [r] from hq)]
      exact ⟨hr, hnew⟩
    have hq : r ∉ (s.setRes1 p 0).queued := fun hm => hc.fresh hf List.mem_cons_self (List.mem_append_left _ hm)
    have hc' : Core (s.setRes1 p 0) := (quiet_setRes1 s 0).core hc
    obtain ⟨s', hs', -⟩ := (hc'.queues.allocating r (readRequest s v p r)).enqueueRequest hq
    exact ⟨s', (actionRead_eq s v p r).trans hs'⟩
  obtain ⟨haround, hreqs⟩ := enqueueRequest_around ((actionRead_eq s v p r).symm.trans h)
  have hpkt : s'.pkts p = { s.pkts p with res1 := 0 } := by
    rw [show s'.pkts = (s.setRes1 p 0).pkts from congrArg Around.pkts haround, setRes1_self]
  have hmem : s'.mem = s.mem := congrArg Around.mem haround
  have hreplied : s'.replied = s.replied := congrArg Around.replied haround
  have hself : (s'.reqs r).pkt = p := by
    rw [hreqs]
    show (Function.update s.reqs r (readRequest s v p r) r).pkt = p
    rw [Function.update_self]
    rfl
  have hfor : For p s' as := fun res hres => by
    rw [hreq res hres]
    exact ⟨hr, hself⟩
  obtain ⟨⟨hsum, hcopied⟩, hft⟩ := hs.read (by rw [hpkt]; exact ht) (by rw [hpkt]) hfor hend (by rw [hpkt]; exact hfit) has
  rw [hpkt, hmem] at hcopied
  have hpast : total past ≤ total as := by
    rw [has, total_append]
    exact Nat.le_add_right _ _
  refine ⟨fun res hres lock m => ?_, ?_, fun hnil => ?_, fun hM => ?_, fun a ha hle => ?_⟩
  · obtain ⟨hv, hp⟩ := hft res hres
    obtain ⟨pre, post, hrest⟩ := List.append_of_mem hres
    have hsplit : as = past ++ pre ++ res :: post := by rw [has, hrest, List.append_assoc]
    have hle := total_le hsplit
    have hfits : total past + res.res1.toNat ≤ (s.pkts p).arg3.toNat := by
      rw [total_append] at hle
      omega
    obtain ⟨u, hu, -⟩ := receive_read hv hp (hsum.type.trans (by rw [hpkt]; exact ht))
      (fun _ => by rw [hsum.res1, hsum.arg3, hpkt]; exact hfits) lock m
    exact ⟨u, hu⟩
  · rw [hsum.replied, hreplied, hend.finals has]
  · rw [hsum.res1, has, hnil, List.append_nil]
  · have hbytes : bytesAt (received s.mem (s.pkts p).arg2 past) (s.pkts p).arg2 (total past) = pieces past :=
      bytesAt_received ((hpast.trans hfit).trans (UInt32.toNat_lt _).le)
    rw [← hbytes]
    exact List.map_congr_left fun i hi => hcopied _ (hM i (List.mem_range.1 hi))
  · rw [hcopied a ha, received_beyond hle]

/-- Up to ten bytes are to be read. -/
def reading : State := { blank with pkts := fun _ => ⟨.dos 0, .read, 0, 0, 7, 1000, 10, 0⟩ }

/-- There are seven bytes, which come in two pieces. -/
def sevenBytes : List FsResponse :=
  [⟨200, 4, 0, fun i => UInt8.ofNat i⟩, ⟨200, 3, minusOne, fun i => UInt8.ofNat (40 + i)⟩]

theorem read_reassembled_two : ∃ s' t, reading.actionRead 4096 100 (some 200) = some s' ∧
    Served 100 Set.univ s' sevenBytes [] t ∧ t.replied.count 100 = 1 ∧ (t.pkts 100).res1.toNat = 7 ∧
    bytesAt t.mem 1000 7 = [0, 1, 2, 3, 40, 41, 42] ∧ t.mem 1007 = 0 := by
  obtain ⟨hdef, hdone⟩ := @read_reassembled reading 4096 100 200 rfl (by decide)
  obtain ⟨s', hs'⟩ := hdef (core_start ..) (by decide)
  have hreq : ∀ a ∈ sevenBytes, a.req = 200 := by simp [sevenBytes]
  have hend : Ending sevenBytes := ⟨[_], _, rfl, by simp, rfl⟩
  have h := hdone s' hs' sevenBytes hreq hend (by decide) Set.univ
  obtain ⟨t, ht⟩ := Served.all fun past rest t hs he => (h past rest t hs he).1
  obtain ⟨-, hre, hres, hbytes, hbeyond⟩ := h sevenBytes [] t ht rfl
  exact ⟨s', t, hs', ht, hre, hres rfl, hbytes fun i _ => Set.mem_univ _, hbeyond 1007 (Set.mem_univ _) (by decide)⟩

end AmiPiBorg.Fs
