import AmiPiBorg.Reader.Arrive

/-!
# The reader is exact

However a stream of well-formed packets is cut into reads, after every read the packets that were queued are those
whose last byte has arrived, in order, each once and with its payload (`reader_exact`). With garbage between the
packets the same holds as long as no garbage is where the parser steps wrong (`synced_run`).

`Synced` is the invariant between reads; `synced_run` carries it through a run.
-/

set_option autoImplicit false

namespace AmiPiBorg.Rx

open ProgLib Reader

/-- Pools answer, and no packet is released. -/
def Event.Allowed : Event → Prop
  | .receive al _ => al.Succeeds
  | .dequeue => True
  | .release _ => False

/-- Every read fits the read buffer, when `pos` bytes have been read before. -/
def Fits : Nat → List Event → Prop
  | _, [] => True
  | pos, .receive _ bs :: es => pos % bufferSize + bs.length ≤ bufferSize ∧ Fits (pos + bs.length) es
  | pos, _ :: es => Fits pos es

/-- Between reads: `n` bytes have arrived, and every packet that they complete is queued. -/
def Synced (all : List Segment) (S : Mem) (n : Nat) (x : Rx) : Prop :=
  ∃ P segs base l rb b, Progress all x.held S rb n x.rd x.rd.inBuf P segs base l ∧
    completed Segment.size segs (n - P) = [] ∧ x.readBuffer = some b ∧ b ∈ x.rd.bufUse ∧
    (x.rd.bufs b).offset = n % bufferSize ∧ (n % bufferSize ≠ 0 → b = rb) ∧
    (n % bufferSize = 0 → ∀ a ∈ l, (x.rd.ibs a).buf ≠ b)

variable {all : List Segment} {S : Mem} {n : Nat} {x : Rx} {al : Alloc} {bs : List UInt8}

theorem Synced.queued (h : Synced all S n x) :
    x.unreleased.map x.rd.view = (completed Segment.size all n).map Segment.incoming := by
  obtain ⟨P, segs, base, l, rb, b, pr, hc, -⟩ := h
  exact pr.queued_all hc

/-! ## Steps -/

/-- Nothing has arrived in the first read buffer. -/
theorem view_start {ibs : IbPtr → InBuffer} {bufs : BufPtr → Buffer} {b : BufPtr} :
    View ((createPacketReader ibs bufs).allocateBuffer b) S 0 0 none 0 [] :=
  ⟨rfl, ⟨Nat.le_refl 0, by decide⟩, rfl, rfl, fun a ha => (by cases ha), fun a ha => (by cases ha)⟩

theorem owned_start {ibs : IbPtr → InBuffer} {bufs : BufPtr → Buffer} {b : BufPtr} :
    ((createPacketReader ibs bufs).allocateBuffer b).Owned [] :=
  ⟨fun a ha => (by cases ha), fun a ha => (by cases ha), List.nodup_nil⟩

theorem synced_start (hal : al.Succeeds) (ibs : IbPtr → InBuffer) (bufs : BufPtr → Buffer)
    (hq : ∀ g ∈ all, g.Quiet) (hc : Clear 0 all) :
    Synced all (Mem.ofList (streamOf all)) 0 (start al ibs bufs) := by
  obtain ⟨b, hs⟩ := start_eq hal ibs bufs
  rw [hs]
  refine ⟨0, all, 0, [], b, b, ⟨⟨view_start, .inl rfl⟩, owned_start, fun h => absurd h (lt_irrefl 0), rfl,
    Mem.holds_ofList _, Nat.zero_add _, Nat.zero_le _, hq, hc, fun ip hip => (by cases hip), fun m _ => rfl⟩,
    completed_eq_nil (by decide) all, rfl, List.mem_cons_self, ?_, fun _ => rfl, fun _ a ha => (by cases ha)⟩
  rw [bufs_allocateBuffer_self]
  rfl

/-- A read that fills the read buffer. -/
theorem receive_full {rd t : Reader} {b : BufPtr} {fuel : Nat} (held : List InPacket) (hal : al.Succeeds)
    (hne : bs ≠ []) (hfit : (rd.bufs b).offset + bs.length ≤ bufferSize)
    (hp : (rd.fill b bs).processBuffer fuel al b = some t) (hoff : (t.bufs b).offset = bufferSize) : ∃ c, c ∉ t.bufUse ∧ ∀ fuel' ≥ fuel,
      step fuel' ⟨rd, some b, held⟩ (.receive al bs) = some ⟨t.allocateBuffer c, some c, held⟩ := by
  obtain ⟨c, hc, hbegin⟩ := beginRead_full held hal hoff
  refine ⟨c, hc, fun fuel' hf => ?_⟩
  simp only [step, srvReceiveFromRemote, if_neg hne, if_neg (Nat.not_lt.2 hfit), processBuffer_mono hp hf,
    Option.map_some, hbegin]

/-- A read that leaves room in the read buffer. -/
theorem receive_room {rd t : Reader} {b : BufPtr} {fuel : Nat} (held : List InPacket) (hne : bs ≠ [])
    (hfit : (rd.bufs b).offset + bs.length ≤ bufferSize) (hp : (rd.fill b bs).processBuffer fuel al b = some t)
    (hoff : (t.bufs b).offset ≠ bufferSize) (fuel' : Nat) (hf : fuel ≤ fuel') :
    step fuel' ⟨rd, some b, held⟩ (.receive al bs) = some ⟨t, some b, held⟩ := by
  simp only [step, srvReceiveFromRemote, if_neg hne, if_neg (Nat.not_lt.2 hfit), processBuffer_mono hp hf,
    Option.map_some, beginRead_room held hoff]

/-- Taking a packet from the queue. -/
theorem synced_dequeue (h : Synced all S n x) :
    Synced all S n { x with rd := x.rd.dequeueInPacket.2, held := x.held ++ x.rd.dequeueInPacket.1.toList } := by
  obtain ⟨P, segs, base, l, rb, b, pr, hc, hb⟩ := h
  obtain ⟨q, m, hd, hq⟩ := dequeue_cases x.rd
  have v := pr.parsing.1
  have hs : SameLayout x.rd { x.rd with queue := q, queueSize := m } :=
    ⟨rfl, fun _ => rfl, fun _ => rfl, fun _ => rfl, rfl, rfl⟩
  rw [hd]
  exact ⟨P, segs, base, l, rb, b, pr.transfer ⟨v.chain, v.laid.congr hs, v.aligned, v.pos, v.head_le, v.tail⟩
    (pr.owned.congr hs (List.suffix_refl l)) pr.last pr.within (by rw [List.append_assoc, hq])
    (fun ip hip => ⟨(pr.stored ip hip).1.congr hs, (pr.stored ip hip).2.congr hs⟩)
    fun ip _ => by rw [view_congr hs.mem_eq], hc, hb⟩

/-- The next read buffer. -/
theorem synced_beginRead {P base : Nat} {segs : List Segment} {l : List IbPtr} {b : BufPtr} {rd : Reader}
    {held : List InPacket} (hal : al.Succeeds) (pr : Progress all held S b n rd rd.inBuf P segs base l)
    (hc : completed Segment.size segs (n - P) = []) (hpos : 0 < n)
    (hoff : (rd.bufs b).offset = n % bufferSize ∧ n % bufferSize ≠ 0 ∨
      (rd.bufs b).offset = bufferSize ∧ n % bufferSize = 0) :
    Synced all S n (srvBeginRead al ⟨rd, some b, held⟩) := by
  have hbu : b ∈ rd.bufUse := by
    obtain ⟨a, ha, rfl⟩ := pr.last hpos
    exact pr.owned.bufUse a (List.mem_of_getLast? ha)
  rcases hoff with ⟨ho, hn⟩ | ⟨ho, hn⟩
  · -- room is left
    have hnf : ¬((rd.bufs b).offset = bufferSize) := by
      simp only [bufferSize] at *
      omega
    rw [beginRead_room held hnf]
    exact ⟨P, segs, base, l, b, b, pr, hc, rfl, hbu, ho, fun _ => rfl, fun h => absurd h hn⟩
  · obtain ⟨c, hcu, hs⟩ := beginRead_full held hal ho
    have hne : ∀ a ∈ l, (rd.ibs a).buf ≠ c := fun a ha he => hcu (he ▸ pr.owned.bufUse a ha)
    rw [hs]
    refine ⟨P, segs, base, l, b, c, ?_, hc, rfl, List.mem_cons_self, ?_, fun h => absurd hn h, fun _ => hne⟩
    · exact pr.transfer (pr.parsing.1.allocateBuffer pr.owned hcu) pr.owned.allocateBuffer pr.last pr.within rfl
        (fun ip hip => ⟨(pr.stored ip hip).1.allocateBuffer hcu, (pr.stored ip hip).2.allocateBuffer hcu⟩)
        fun ip _ => by rw [view_congr mem_allocateBuffer]
    · rw [bufs_allocateBuffer_self, hn]

/-- **A read** keeps the reader in step with the stream. -/
theorem synced_receive (h : Synced all S n x) (hal : al.Succeeds) (hS : S.Holds n bs)
    (hfit : n % bufferSize + bs.length ≤ bufferSize) (hn : n + bs.length ≤ (streamOf all).length) :
    ∃ N x', (∀ fuel ≥ N, x.srvReceiveFromRemote fuel al bs = some x') ∧ Synced all S (n + bs.length) x' := by
  by_cases hne : bs = []
  · subst hne
    exact ⟨0, x, fun _ _ => rfl, h⟩
  obtain ⟨P, segs, base, l, rb, b, pr, hc, hb, hbu, hoff, hon, hnew⟩ := h
  have hpos : 0 < bs.length := List.length_pos_of_ne_nil hne
  obtain ⟨t, l₁, happ, htb, pr₁⟩ := progress_arrive pr hal.inBuffer hbu hoff hon hnew hS hne hfit hn
  obtain ⟨t', hrun, hst, P', segs', base', l', pr', hc'⟩ := progress_loop pr₁ hal.inPacket
  refine ⟨l.length + 1 + (n + bs.length - P + 1), srvBeginRead al ⟨t', some b, x.held⟩, fun fuel hf => ?_,
    synced_beginRead hal pr' hc' (by omega) ?_⟩
  · have hproc : (x.rd.fill b bs).processBuffer fuel al b = some t' := by
      simp only [processBuffer, happ fuel (by omega), Option.bind_some, if_true]
      exact Loop.run_mono hrun (by omega)
    simp only [srvReceiveFromRemote, if_neg hne, hb, hoff, hproc, Option.map_some]
    rw [if_neg (by omega)]
  · have ho : (t'.bufs b).offset = n % bufferSize + bs.length := by
      rw [hst.bufs, htb, bufs_fill_self, hoff]
    simp only [ho, bufferSize] at *
    omega

/-- **A run.** -/
theorem synced_run : ∀ {es : List Event} (pre : List UInt8) {x : Rx},
    Synced all (Mem.ofList (streamOf all)) pre.length x → (∀ e ∈ es, e.Allowed) → Fits pre.length es →
    pre ++ received es <+: streamOf all → ∃ N x', (∀ fuel ≥ N, runs (step fuel) x es = some x') ∧
      Synced all (Mem.ofList (streamOf all)) (pre ++ received es).length x'
  | [], pre, x, h, _, _, _ => ⟨0, x, fun _ _ => rfl, by simpa [received] using h⟩
  | .receive al bs :: es, pre, x, h, hok, hfit, hpre => by
    simp only [received, ← List.append_assoc] at hpre ⊢
    have hpre' : pre ++ bs <+: streamOf all := (List.prefix_append _ _).trans hpre
    have hS : (Mem.ofList (streamOf all)).Holds pre.length bs := by
      obtain ⟨rest, hr⟩ := hpre'
      have := Mem.holds_ofList (streamOf all)
      rw [← hr, Mem.holds_append, Mem.holds_append, Nat.zero_add] at this
      rw [← hr]
      exact this.1.2
    have hlen := hpre'.length_le
    rw [List.length_append] at hlen
    obtain ⟨N₁, x₁, hx₁, hs₁⟩ := synced_receive h (hok _ List.mem_cons_self) hS hfit.1 hlen
    rw [← List.length_append] at hs₁
    obtain ⟨N₂, x₂, hx₂, hs₂⟩ := synced_run (pre ++ bs) hs₁ (fun e he => hok e (List.mem_cons_of_mem _ he))
      (by rw [List.length_append]; exact hfit.2) hpre
    refine ⟨max N₁ N₂, x₂, fun fuel hf => ?_, hs₂⟩
    rw [runs_cons (show step fuel x (.receive al bs) = some x₁ from hx₁ fuel (le_of_max_le_left hf))]
    exact hx₂ fuel (le_of_max_le_right hf)
  | .dequeue :: es, pre, x, h, hok, hfit, hpre => by
    obtain ⟨N, x', hx, hs⟩ := synced_run pre (synced_dequeue h) (fun e he => hok e (List.mem_cons_of_mem _ he)) hfit
      hpre
    exact ⟨N, x', fun fuel hf => by rw [runs_cons rfl]; exact hx fuel hf, hs⟩
  | .release i :: es, _, _, _, hok, _, _ => (hok _ List.mem_cons_self).elim

/-! ## The results -/

/-- **The reader is exact**, and does not depend on how the bytes arrive. -/
theorem reader_exact (ps : List WirePacket) (al : Alloc) (ibs : IbPtr → InBuffer) (bufs : BufPtr → Buffer)
    (es : List Event) (hal : al.Succeeds) (hok : ∀ e ∈ es, e.Allowed) (hfit : Fits 0 es)
    (hstream : received es <+: ps.flatMap WirePacket.bytes) :
    ∃ N x, (∀ fuel ≥ N, runs (step fuel) (start al ibs bufs) es = some x) ∧
      x.unreleased.map x.rd.view =
        (completed WirePacket.size ps (received es).length).map WirePacket.incoming := by
  let seg : WirePacket → Segment := fun p => ⟨[], p, rfl⟩
  have hs : streamOf (ps.map seg) = ps.flatMap WirePacket.bytes := List.flatMap_map ..
  have hclear : ∀ (ps : List WirePacket) (pos : Nat), Clear pos (ps.map seg) := by
    intro ps
    induction ps with
    | nil => exact fun _ => trivial
    | cons p ps ih => exact fun pos => ⟨fun k hk => absurd hk (Nat.not_lt_zero k), ih _⟩
  have hquiet : ∀ g ∈ ps.map seg, g.Quiet := by
    intro g hg
    obtain ⟨p, -, rfl⟩ := List.mem_map.1 hg
    exact fun k hk => absurd hk (Nat.not_lt_zero k)
  obtain ⟨N, x, hx, hsync⟩ := synced_run [] (synced_start hal ibs bufs hquiet (hclear ps 0)) hok hfit
    (by rw [List.nil_append, hs]; exact hstream)
  refine ⟨N, x, hx, ?_⟩
  have hsize : (fun p => (seg p).size) = WirePacket.size := funext fun p => Nat.zero_add _
  rw [hsync.queued, List.nil_append, completed_map seg, hsize, List.map_map]
  rfl

/-- A packet with an odd payload, in two reads. -/
theorem reader_exact_two_reads :
    let p := WirePacket.sealed 1 2 3 [65, 66, 67] (by decide)
    ∃ N x, (∀ fuel ≥ N, runs (step fuel) (start .unbounded (fun _ => default) (fun _ => default))
        [.receive .unbounded (p.bytes.take 5), .dequeue, .receive .unbounded (p.bytes.drop 5)] = some x) ∧
      x.unreleased.map x.rd.view = [⟨1, 1, 2, 3, [65, 66, 67]⟩] := by
  intro p
  have hlen : p.bytes.length = 18 := p.length_bytes
  have hrec : received [.receive .unbounded (p.bytes.take 5), .dequeue, .receive .unbounded (p.bytes.drop 5)] =
      p.bytes := by simp only [received, List.append_nil, List.take_append_drop]
  have hfit : Fits 0 [.receive .unbounded (p.bytes.take 5), .dequeue, .receive .unbounded (p.bytes.drop 5)] := by
    simp only [Fits, List.length_take, List.length_drop, hlen]
    decide
  obtain ⟨N, x, hx, hv⟩ := reader_exact [p] .unbounded (fun _ => default) (fun _ => default) _
    Alloc.unbounded_succeeds (by simp [Event.Allowed, Alloc.unbounded_succeeds]) hfit (by simp [hrec])
  refine ⟨N, x, hx, ?_⟩
  rw [hv, hrec, hlen]
  rfl

end AmiPiBorg.Rx
