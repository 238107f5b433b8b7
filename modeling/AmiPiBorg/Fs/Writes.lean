import AmiPiBorg.Fs.Served

/-!
# A write, from the packet to the reply

`FS_ActionWrite` enqueues one request for each chunk of the data (`actionWrite_eq`): the chunks make up the data, and
each request says how many bytes come after it. When they are answered, each with its size, `FS_ActionWriteReply`
counts the bytes in the packet and replies to it at the last answer (`write_completed`).
-/

set_option autoImplicit false

namespace AmiPiBorg.Fs

open ProgLib

variable {s s' t : State} {v p r data : Addr} {n : Nat} {mems : List (Option Addr)} {M : Set Addr}
  {cs pre post : List (Addr × FsRequest)} {c : Addr × FsRequest} {as past rest : List FsResponse}

/-! ## The chunks -/

/-- The bytes that the requests carry. -/
def carried (cs : List (Addr × FsRequest)) : List UInt8 := cs.flatMap fun c => c.2.bytes

/-- The requests are enqueued in order, each in its memory. -/
def enqueueAll (cs : List (Addr × FsRequest)) (s : State) : Option State :=
  cs.foldlM (fun s c => (s.allocating c.1 c.2).enqueueRequest c.1) s

/-- The request is one of a write for the packet `p`, with `left` bytes after it. -/
structure IsChunk (v p : Addr) (pkt : DosPacket) (left : Nat) (c : FsRequest) : Prop where
  volume : c.volume = v
  packet : c.pkt = p
  type : c.type = .write
  arg1 : c.arg1 = pkt.arg1
  pos : 0 < c.bytes.length
  le : c.bytes.length ≤ maxWriteLen
  room : c.room = maxWriteLen
  length : c.length.toNat = c.bytes.length
  arg2 : c.arg2 = 0
  arg3 : c.arg3.toNat = left
  arg4 : c.arg4.toNat = c.bytes.length

/-- **The requests `cs` carry the `n` bytes from `data` on**, in order. -/
structure Chunks (v p : Addr) (s : State) (data : Addr) (n : Nat) (cs : List (Addr × FsRequest)) : Prop where
  bytes : carried cs = bytesAt s.mem data n
  chunk : ∀ pre c post, cs = pre ++ c :: post → IsChunk v p (s.pkts p) (carried post).length c.2

theorem Chunks.length (h : Chunks v p s data n cs) : (carried cs).length = n := by rw [h.bytes, length_bytesAt]

/-- Only the last one has nothing after it. -/
theorem Chunks.arg3_eq_zero_iff (h : Chunks v p s data n cs) (hcs : cs = pre ++ c :: post) :
    c.2.arg3 = 0 ↔ post = [] := by
  rw [← UInt32.toNat_inj, (h.chunk pre c post hcs).arg3]
  cases post with
  | nil => exact iff_of_true rfl rfl
  | cons d post =>
    have hd := (h.chunk (pre ++ [c]) d post (by rw [hcs, List.append_assoc, List.singleton_append])).pos
    refine iff_of_false (fun hz => ?_) (List.cons_ne_nil d post)
    rw [carried, List.flatMap_cons, List.length_append] at hz
    exact absurd (Nat.eq_zero_of_add_eq_zero_right hz) (Nat.pos_iff_ne_zero.1 hd)

/-- One more chunk before the others. -/
theorem Chunks.cons (hc : IsChunk v p (s.pkts p) n c.2) (hb : c.2.bytes = bytesAt s.mem data c.2.bytes.length)
    (h : Chunks v p s (data + UInt32.ofNat c.2.bytes.length) n cs) :
    Chunks v p s data (c.2.bytes.length + n) (c :: cs) := by
  refine ⟨?_, fun pre d post hcs => ?_⟩
  · rw [bytesAt_append, ← h.bytes, ← hb]
    rfl
  · cases pre with
    | nil =>
      obtain ⟨rfl, rfl⟩ := List.cons.inj hcs
      rw [h.length]
      exact hc
    | cons d' pre => exact h.chunk pre d post (List.cons.inj hcs).2

/-- The request that an iteration of the loop of `FS_ActionWrite` makes. -/
def chunkRequest (s : State) (v p r data : Addr) (n : Nat) : FsRequest :=
  let packetBytes := min n maxWriteLen
  { newRequest s v p r .write (UInt16.ofNat packetBytes) with
    arg1 := (s.pkts p).arg1, arg2 := 0, arg3 := UInt32.ofNat (n - packetBytes), arg4 := UInt32.ofNat packetBytes
    length := UInt16.ofNat packetBytes, bytes := bytesAt s.mem data packetBytes }

theorem room_chunkRequest (hn : 0 < n) : (chunkRequest s v p r data n).room = maxWriteLen := by
  have hlen := toNat_ofNat_chunk (Nat.min_le_right n maxWriteLen)
  have hpos : UInt16.ofNat (min n maxWriteLen) > 0 := by
    rw [gt_iff_lt, UInt16.lt_iff_toNat_lt, hlen]
    exact lt_min hn (by decide)
  exact if_pos (if_pos hpos)

/-- Nothing is in the way of the first bytes that are appended. -/
theorem FsRequest.appendArg_first {req : FsRequest} {len : UInt16} {b : List UInt8} (hr : len.toNat ≤ req.room)
    (hl : req.length = 0) : req.appendArg 2 len b =
      some { req with arg2 := 0, length := len, bytes := req.bytes ++ b } := by
  have hfits : ¬req.room < req.length.toNat + len.toNat := by
    rw [hl, show (0 : UInt16).toNat = 0 from rfl, Nat.zero_add]
    exact Nat.not_lt.2 hr
  unfold FsRequest.appendArg
  rw [if_neg hfits]
  dsimp only
  rw [hl, UInt16.zero_add]
  rfl

/-- **An iteration** enqueues that request. -/
theorem writeChunk_eq (hn : 0 < n) :
    s.writeChunk v p data n (some r) = (s.allocating r (chunkRequest s v p r data n)).enqueueRequest r := by
  have hot : (chunkRequest s v p r data n).ot = State.requestType (UInt16.ofNat (min n maxWriteLen)) := rfl
  let req : FsRequest := { newRequest s v p r .write (UInt16.ofNat (min n maxWriteLen)) with
    arg1 := (s.pkts p).arg1, arg3 := (s.pkts p).arg3 }
  have hroom : (UInt16.ofNat (min n maxWriteLen)).toNat ≤ req.room := by
    rw [show req.room = maxWriteLen from @room_chunkRequest s v p r data n hn,
      toNat_ofNat_chunk (Nat.min_le_right n maxWriteLen)]
    exact Nat.min_le_right _ _
  have happ := FsRequest.appendArg_first (b := bytesAt s.mem data (min n maxWriteLen)) hroom rfl
  unfold State.writeChunk
  refine request_eq ?_ hot
  show Option.map _ (req.appendArg 2 _ _) = _
  rw [happ]
  rfl

theorem isChunk_chunkRequest (hn : 0 < n) (hlt : n < 2 ^ 32) :
    IsChunk v p (s.pkts p) (n - min n maxWriteLen) (chunkRequest s v p r data n) := by
  have hlen : (chunkRequest s v p r data n).bytes.length = min n maxWriteLen := length_bytesAt ..
  have hmin : min n maxWriteLen < 2 ^ 32 := (Nat.min_le_left _ _).trans_lt hlt
  refine ⟨rfl, rfl, rfl, rfl, ?_, ?_, room_chunkRequest hn, ?_, rfl, ?_, ?_⟩
  · rw [hlen]
    exact lt_min hn (by decide)
  · rw [hlen]
    exact Nat.min_le_right _ _
  · rw [hlen]
    exact toNat_ofNat_chunk (Nat.min_le_right _ _)
  · exact UInt32.toNat_ofNat_of_lt' ((Nat.sub_le _ _).trans_lt hlt)
  · rw [hlen]
    exact UInt32.toNat_ofNat_of_lt' hmin

/-- The request depends on nothing that requests change. -/
theorem chunkRequest_congr (h : s'.around = s.around) :
    chunkRequest s' v p r data n = chunkRequest s v p r data n := by
  unfold chunkRequest newRequest
  rw [show s'.mem = s.mem from congrArg Around.mem h, show s'.pkts = s.pkts from congrArg Around.pkts h,
    show s'.vols = s.vols from congrArg Around.vols h]

/-- **The loop of `FS_ActionWrite`** enqueues chunks of the data. The induction is on what the loop has left. -/
theorem writeChunks_eq (s : State) (v p : Addr) : ∀ {mems : List (Option Addr)} {data : Addr} {n : Nat},
    HasMemory ((n + (maxWriteLen - 1)) / maxWriteLen) mems → n < 2 ^ 32 →
    ∃ cs, Chunks v p s data n cs ∧ (cs.map Prod.fst).Sublist mems.reduceOption ∧
      ∀ s', s'.around = s.around → State.writeChunks v p mems s' data n = enqueueAll cs s'
  | mems, data, 0, _, _ => by
    refine ⟨[], ⟨rfl, fun pre c post h => ?_⟩, List.nil_sublist _, fun s' _ => ?_⟩
    · cases pre <;> cases h
    · cases mems <;> rfl
  | mems, data, n + 1, hm, hlt => by
    have hk : (n + 1 + (maxWriteLen - 1)) / maxWriteLen = (n + 1 - min (n + 1) maxWriteLen + (maxWriteLen - 1)) /
        maxWriteLen + 1 := by unfold maxWriteLen; omega
    rw [hk] at hm
    obtain ⟨r, mems', rfl, hm'⟩ := hm.cons
    have hrest : n + 1 - min (n + 1) maxWriteLen < n + 1 := by unfold maxWriteLen; omega
    obtain ⟨cs, hcs, hsub, heq⟩ := @writeChunks_eq s v p mems' (data + UInt32.ofNat (min (n + 1) maxWriteLen)) _ hm'
      (hrest.trans hlt)
    have hlen : (chunkRequest s v p r data (n + 1)).bytes.length = min (n + 1) maxWriteLen := length_bytesAt ..
    refine ⟨(r, chunkRequest s v p r data (n + 1)) :: cs, ?_, ?_, fun s' hs' => ?_⟩
    · have hchunk := @isChunk_chunkRequest s v p r data _ n.succ_pos hlt
      have hbytes : (chunkRequest s v p r data (n + 1)).bytes = bytesAt s.mem data (min (n + 1) maxWriteLen) := rfl
      have hsplit : min (n + 1) maxWriteLen + (n + 1 - min (n + 1) maxWriteLen) = n + 1 :=
        Nat.add_sub_cancel' (Nat.min_le_left _ _)
      rw [← hlen] at hchunk hbytes hcs hsplit
      generalize chunkRequest s v p r data (n + 1) = c at *
      rw [← hsplit]
      exact Chunks.cons (c := (r, c)) hchunk hbytes hcs
    · rw [List.reduceOption_cons_of_some]
      exact hsub.cons_cons r
    · show (s'.writeChunk v p data (n + 1) (some r)).bind _ = Option.bind _ _
      rw [writeChunk_eq n.succ_pos, chunkRequest_congr hs']
      refine Option.bind_congr fun u hu => heq u ?_
      exact (enqueueRequest_around hu).1.trans hs'

/-! ## The requests that are enqueued -/

/-- **The requests are there** once they are enqueued, and around them nothing has changed. -/
theorem enqueueAll_spec (hnd : (cs.map Prod.fst).Nodup) (h : enqueueAll cs s = some s') :
    s'.around = s.around ∧ (∀ c ∈ cs, s'.reqs c.1 = c.2) ∧ ∀ r ∉ cs.map Prod.fst, s'.reqs r = s.reqs r := by
  induction cs generalizing s with
  | nil =>
    cases h
    exact ⟨rfl, fun c hc => (List.not_mem_nil hc).elim, fun r _ => rfl⟩
  | cons c cs ih =>
    obtain ⟨hc, hnd⟩ := List.nodup_cons.1 hnd
    obtain ⟨t, ht, h⟩ := Option.bind_eq_some_iff.1 h
    obtain ⟨hat, hrt⟩ := enqueueRequest_around ht
    obtain ⟨ha, hcs, hother⟩ := ih hnd h
    refine ⟨ha.trans hat, fun d hd => ?_, fun r hr => ?_⟩
    · obtain rfl | hd := List.mem_cons.1 hd
      · rw [hother _ hc, hrt]
        exact Function.update_self ..
      · exact hcs d hd
    · obtain ⟨hne, hr⟩ := not_or.1 (fun hm => hr (List.mem_cons.2 hm))
      rw [hother r hr, hrt]
      exact Function.update_of_ne hne ..

/-- **They are sent or wait in their order**, behind the others. -/
theorem enqueueAll_order (hq : Queues s) (hnd : (cs.map Prod.fst).Nodup)
    (hcs : ∀ r ∈ cs.map Prod.fst, r ∉ s.unanswered ++ s.queued)
    (h : enqueueAll cs s = some s') :
    s'.unanswered ++ s'.queued = s.unanswered ++ s.queued ++ cs.map Prod.fst := by
  induction cs generalizing s with
  | nil =>
    cases h
    exact (List.append_nil _).symm
  | cons c cs ih =>
    obtain ⟨hc, hnd⟩ := List.nodup_cons.1 hnd
    obtain ⟨t, ht, h⟩ := Option.bind_eq_some_iff.1 h
    have hr : c.1 ∉ (s.allocating c.1 c.2).queued := fun hm => hcs _ List.mem_cons_self (List.mem_append_right _ hm)
    have hqa := hq.allocating c.1 c.2
    have horder : t.unanswered ++ t.queued = s.unanswered ++ s.queued ++ [c.1] := hqa.enqueueRequest_order hr ht
    obtain ⟨u, hu, hqu, -⟩ := hqa.enqueueRequest hr
    cases ht.symm.trans hu
    refine (ih hqu hnd (fun r hm hrt => ?_) h).trans ?_
    · rw [horder] at hrt
      rcases List.mem_append.1 hrt with hrt | hrt
      · exact hcs r (List.mem_cons_of_mem _ hm) hrt
      · exact hc (List.mem_singleton.1 hrt ▸ hm)
    · rw [horder, List.map_cons, List.append_assoc, List.singleton_append]

/-- **What `FS_ActionWrite` enqueues.** -/
theorem actionWrite_eq (hm : HasMemory ((State.bytesToWrite (s.pkts p) + (maxWriteLen - 1)) / maxWriteLen) mems) :
    ∃ cs, s.actionWrite v p mems = enqueueAll cs (s.setRes1 p 0) ∧
      Chunks v p s (s.pkts p).arg2 (State.bytesToWrite (s.pkts p)) cs ∧
      (cs.map Prod.fst).Sublist mems.reduceOption := by
  obtain ⟨cs, hcs, hsub, heq⟩ := @writeChunks_eq (s.setRes1 p 0) v p mems (s.pkts p).arg2 _ hm (bytesToWrite_lt _)
  have harg : ((s.setRes1 p 0).pkts p).arg1 = (s.pkts p).arg1 := by rw [setRes1_self]
  refine ⟨cs, heq _ rfl, ⟨hcs.bytes, fun pre c post h => ?_⟩, hsub⟩
  exact { hcs.chunk pre c post h with arg1 := (hcs.chunk pre c post h).arg1.trans harg }

/-! ## The answers -/

/-- The handler answers each of the chunks in order with its size, and the last one with -1. -/
structure WritesAll (cs : List (Addr × FsRequest)) (as : List FsResponse) : Prop where
  req : as.map FsResponse.req = cs.map Prod.fst
  res1 : (as.map fun a => a.res1.toNat) = cs.map fun c => c.2.bytes.length
  ending : Ending as

theorem WritesAll.total {as : List FsResponse} (h : WritesAll cs as) : total as = (carried cs).length := by
  rw [Fs.total, h.res1, carried, List.length_flatMap]

/-- The handler can do so. -/
theorem Chunks.answers (h : Chunks v p s data n cs) (hn : 0 < n) : ∃ as, WritesAll cs as := by
  obtain rfl | ⟨init, last, hcs⟩ := cs.eq_nil_or_concat'
  · rw [← h.length] at hn
    exact absurd hn (lt_irrefl 0)
  · let answer (res2 : UInt32) (c : Addr × FsRequest) : FsResponse := ⟨c.1, c.2.arg4, res2, fun _ => 0⟩
    have hsize : ∀ c ∈ cs, c.2.arg4.toNat = c.2.bytes.length := fun c hc => by
      obtain ⟨pre, post, hcs⟩ := List.append_of_mem hc
      exact (h.chunk pre c post hcs).arg4
    refine ⟨init.map (answer 0) ++ [answer minusOne last], ?_, ?_, init.map (answer 0), _, rfl, fun a ha => ?_, rfl⟩
    · simp [hcs, answer]
    · rw [← List.map_congr_left hsize, hcs]
      simp [answer]
    · obtain ⟨c, -, rfl⟩ := List.mem_map.1 ha
      rfl

/-- **The answers to a write are counted** in its packet. -/
theorem Served.write {as : List FsResponse} (ht : (s.pkts p).type = .write) (hz : (s.pkts p).res1 = 0)
    (hfor : For p s as) (hend : Ending as) (hlt : Fs.total as < 2 ^ 32) (h : Served p M s past rest t)
    (has : as = past ++ rest) : Summed p s past t ∧ For p t rest := by
  refine h.induct (I := Summed p s) hfor (.start hz) (fun past rest t u _ _ hI he => hI.elsewhere he) ?_ has
  intro past res rest lock m t u has hft hI hu
  have ha := hft.write (hI.type.trans ht) hu
  exact ⟨ha.reqs, hI.answered ha (hend.or has) ((total_le has).trans_lt hlt)⟩

/-- **A write is passed on completely and completed once**, by the last answer. -/
theorem write_completed (ht : (s.pkts p).type = .write) (hf : FreshReqs s mems)
    (hm : HasMemory ((State.bytesToWrite (s.pkts p) + (maxWriteLen - 1)) / maxWriteLen) mems) :
    ∃ cs, s.actionWrite v p mems = enqueueAll cs (s.setRes1 p 0) ∧
      Chunks v p s (s.pkts p).arg2 (State.bytesToWrite (s.pkts p)) cs ∧
      (∀ pre c post, cs = pre ++ c :: post → (c.2.arg3 = 0 ↔ post = [])) ∧
      (Core s → ∃ s', s.actionWrite v p mems = some s' ∧
        s'.unanswered ++ s'.queued = s.unanswered ++ s.queued ++ cs.map Prod.fst ∧ ∀ c ∈ cs, s'.reqs c.1 = c.2) ∧
      ∀ s', s.actionWrite v p mems = some s' → ∀ as, WritesAll cs as →
        ∀ M past rest t, Served p M s' past rest t → as = past ++ rest →
          (∀ res ∈ rest, ∀ lock m, ∃ u, t.receiveResponse res lock m = some u) ∧
          t.replied.count p = s.replied.count p + (if rest = [] then 1 else 0) ∧
          (rest = [] → (t.pkts p).res1.toNat = State.bytesToWrite (s.pkts p)) := by
  obtain ⟨cs, heq, hcs, hsub⟩ := actionWrite_eq (v := v) hm
  have hvalid : ∀ c ∈ cs, ValidAddr c.1 := fun c hc => (hf.2 c.1 (hsub.subset (List.mem_map_of_mem hc))).1
  refine ⟨cs, heq, hcs, fun _ _ _ h => hcs.arg3_eq_zero_iff h, fun hc => ?_, fun s' hs' as has M past rest t hsv happ => ?_⟩
  · have hc' : Core (s.setRes1 p 0) := (quiet_setRes1 s 0).core hc
    have hnd := hf.1.sublist hsub
    obtain ⟨s', hs'⟩ : ∃ s', s.actionWrite v p mems = some s' := writeChunks_defined hc' hf hm
    have hall := heq.symm.trans hs'
    have hnew : ∀ r ∈ cs.map Prod.fst, r ∉ s.unanswered ++ s.queued := fun r hr hm =>
      hc.fresh hf (hsub.subset hr) (List.mem_append.2 (List.mem_append.1 hm).symm)
    have horder := enqueueAll_order hc'.queues hnd hnew hall
    exact ⟨s', hs', horder, (enqueueAll_spec hnd hall).2.1⟩
  · obtain ⟨haround, hreqs, -⟩ := enqueueAll_spec (hf.1.sublist hsub) (heq.symm.trans hs')
    have hpkt : s'.pkts p = { s.pkts p with res1 := 0 } := by
      rw [show s'.pkts = (s.setRes1 p 0).pkts from congrArg Around.pkts haround, setRes1_self]
    have hreplied : s'.replied = s.replied := congrArg Around.replied haround
    have hfor : For p s' as := by
      intro res hres
      have hmem : res.req ∈ cs.map Prod.fst := has.req ▸ List.mem_map_of_mem hres
      obtain ⟨c, hc, he⟩ := List.mem_map.1 hmem
      obtain ⟨pre, post, happ⟩ := List.append_of_mem hc
      rw [← he]
      exact ⟨hvalid c hc, by rw [hreqs c hc]; exact (hcs.chunk pre c post happ).packet⟩
    have htotal : total as = State.bytesToWrite (s.pkts p) := has.total.trans hcs.length
    obtain ⟨hsum, hft⟩ := hsv.write (by rw [hpkt]; exact ht) (by rw [hpkt]) hfor has.ending
      (htotal ▸ bytesToWrite_lt _) happ
    have htype : (t.pkts p).type = .write := hsum.type.trans (by rw [hpkt]; exact ht)
    refine ⟨fun res hres => hft.write_defined htype hres, ?_, fun hnil => ?_⟩
    · rw [hsum.replied, hreplied, has.ending.finals happ]
    · rw [hsum.res1, ← htotal, happ, hnil, List.append_nil]

/-- 600 bytes are to be written. -/
def writing : State := { blank with pkts := fun _ => ⟨.dos 0, .write, 0, 0, 7, 1000, 600, 0⟩ }

theorem write_completed_two : ∃ s' t, writing.actionWrite 4096 100 [some 200, some 300] = some s' ∧
    (∃ as, Served 100 ∅ s' as [] t) ∧ t.replied.count 100 = 1 ∧ (t.pkts 100).res1.toNat = 600 := by
  obtain ⟨cs, -, hcs, -, hdef, hdone⟩ := @write_completed writing 4096 100
    [some 200, some 300] rfl (by decide) (by decide)
  obtain ⟨s', hs', -⟩ := hdef (core_start ..)
  obtain ⟨as, has⟩ := hcs.answers (by decide)
  obtain ⟨t, ht⟩ := Served.all fun past rest t h he => (hdone s' hs' as has ∅ past rest t h he).1
  obtain ⟨-, hre, hres⟩ := hdone s' hs' as has ∅ as [] t ht (List.append_nil as).symm
  exact ⟨s', t, hs', ⟨as, ht⟩, hre, hres rfl⟩

end AmiPiBorg.Fs
