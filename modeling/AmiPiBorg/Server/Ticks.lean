import Mathlib.Data.List.TakeWhile
import AmiPiBorg.Lib.Lists
import AmiPiBorg.Server.Defs

/-!
# A tick, node by node (`server/connection.c`)

`APB_CnnCheckRequestTimeouts` goes along a request queue and takes the requests off that time out, while it reads from
each request where the next one is. A request that it replies to is by then the last message of its reply port, and what
follows it there is the end of that list. So the loop ends with the first request that times out (`Passed`), and the ones
behind it have to wait for the next tick, which they did not lose time for (`checkRequestTimeouts_once`).

Nodes are requests, connections and the two ends of lists. The rest of the server knows the loop as `tickRequests`, which
`Passed.tickRequests_queue` gets from here.
-/

set_option autoImplicit false

namespace AmiPiBorg

open ProgLib

variable {ι κ : Type}

/-- Where the lists are: that of the connections, the request queue of each, and the message list of each port. -/
structure Layout (ι κ : Type) where
  cnns : Header ι
  reqQueue : ι → Header ι
  msgList : κ → Header ι
  /-- `mn_ReplyPort`. -/
  replyPort : ι → κ

/-- A list. -/
inductive ListId (ι κ : Type) where
  | cnns
  | queue (c : ι)
  | port (p : κ)
  deriving DecidableEq

/-- The memory of the nodes. -/
structure Nodes (ι : Type) where
  links : Links ι
  req : ι → Request

namespace Layout

/-- The header of a list. -/
def header (lay : Layout ι κ) : ListId ι κ → Header ι
  | .cnns => lay.cnns
  | .queue c => lay.reqQueue c
  | .port p => lay.msgList p

/-- The lists that there are, with these nodes on them. -/
def live (q : ListId ι κ → List ι) : Set (ListId ι κ) := fun
  | .cnns => True
  | .queue c => c ∈ q .cnns
  | .port _ => True

end Layout

/-- All lists are intact. -/
def Nodes.Intact (nil : ι) (lay : Layout ι κ) (s : Nodes ι) (q : ListId ι κ → List ι) : Prop :=
  Lists nil s.links (Layout.live q) lay.header q

namespace Nodes

variable [DecidableEq ι]

/-- The request at a node. -/
def setReq (s : Nodes ι) (r : ι) (v : Request) : Nodes ι := { s with req := Function.update s.req r v }

/-- `ReplyMsg`. -/
def replyMsg (lay : Layout ι κ) (s : Nodes ι) (r : ι) : Nodes ι :=
  { s with links := s.links.addTail (lay.msgList (lay.replyPort r)) r }

/-- The body of the loop of `APB_CnnCheckRequestTimeouts`. -/
def checkTimeout (lay : Layout ι κ) (s : Nodes ι) (r : ι) : Nodes ι :=
  if (s.req r).timeoutTicks = 1 then
    let s := s.setReq r { s.req r with state := .timeout }
    { s with links := s.links.remove r }.replyMsg lay r
  else if 1 < (s.req r).timeoutTicks then
    s.setReq r { s.req r with timeoutTicks := (s.req r).timeoutTicks - 1 }
  else s

/-- `APB_CnnCheckRequestTimeouts`, for at most so many requests. -/
def cnnCheckRequestTimeouts (nil : ι) (lay : Layout ι κ) (n : Nat) (s : Nodes ι) (c : ι) : Option (Nodes ι) :=
  forNodes nil links (fun s r => some (s.checkTimeout lay r)) n (s.links.succ (lay.reqQueue c).head) s

/-- `APB_CheckRequestTimeouts`, for at most so many connections, and as many requests of each. -/
def checkRequestTimeouts (nil : ι) (lay : Layout ι κ) (n : Nat) (s : Nodes ι) : Option (Nodes ι) :=
  forNodes nil links (cnnCheckRequestTimeouts nil lay n) n (s.links.succ lay.cnns.head) s

end Nodes

/-! ## What a tick is to do -/

/-- The request times out with this tick. -/
def due (req : ι → Request) (r : ι) : Bool := (req r).timeoutTicks == 1

/-- What a tick makes of a request. -/
def Request.tick (r : Request) : Request :=
  if r.timeoutTicks = 1 then { r with state := .timeout }
  else if 1 < r.timeoutTicks then { r with timeoutTicks := r.timeoutTicks - 1 }
  else r

/-- The queues without the requests that are due, and the ports with them. -/
def ticked [DecidableEq κ] (lay : Layout ι κ) (req : ι → Request) (q : ListId ι κ → List ι) : ListId ι κ → List ι
  | .cnns => q .cnns
  | .queue c => (q (.queue c)).filter fun r => !due req r
  | .port p => q (.port p) ++ ((q .cnns).flatMap fun c => (q (.queue c)).filter (due req)).filter (lay.replyPort · = p)

/-- Every request of a queue is treated once: it is replied to if it is due, and has a tick less if it had more than
one. -/
structure Once [DecidableEq κ] (nil : ι) (lay : Layout ι κ) (q : ListId ι κ → List ι) (s s' : Nodes ι) : Prop where
  lists : s'.Intact nil lay (ticked lay s.req q)
  ticks : ∀ c ∈ q .cnns, ∀ r ∈ q (.queue c), s'.req r = (s.req r).tick
  others : ∀ r, (∀ c ∈ q .cnns, r ∉ q (.queue c)) → s'.req r = s.req r

/-! ## One queue -/

/-- The requests up to the first one that is due. -/
def waiting (req : ι → Request) (l : List ι) : List ι := l.takeWhile fun r => !due req r

/-- The first request that is due, and those behind it. -/
def fromDue (req : ι → Request) (l : List ι) : List ι := l.dropWhile fun r => !due req r

theorem waiting_append (req : ι → Request) (l : List ι) : waiting req l ++ fromDue req l = l :=
  List.takeWhile_append_dropWhile

/-- What the loop does to the queue of `c`, of which it comes to the requests of `l`. -/
structure Passed [DecidableEq κ] (nil : ι) (lay : Layout ι κ) (c : ι) (u l : List ι) (q : ListId ι κ → List ι)
    (s s' : Nodes ι) (q' : ListId ι κ → List ι) : Prop where
  lists : s'.Intact nil lay q'
  cnns : q' .cnns = q .cnns
  queue : q' (.queue c) = u ++ (waiting s.req l ++ (fromDue s.req l).drop 1)
  queues : ∀ c', c' ≠ c → q' (.queue c') = q (.queue c')
  port : ∀ p, q' (.port p) = q (.port p) ++ ((fromDue s.req l).take 1).filter (lay.replyPort · = p)
  reached : ∀ r ∈ waiting s.req l ++ (fromDue s.req l).take 1, s'.req r = (s.req r).tick
  others : ∀ r, r ∉ waiting s.req l ++ (fromDue s.req l).take 1 → s'.req r = s.req r

theorem waiting_congr {req req' : ι → Request} {l : List ι} (h : ∀ r ∈ l, req' r = req r) :
    waiting req' l = waiting req l ∧ fromDue req' l = fromDue req l := by
  induction l with
  | nil => exact ⟨rfl, rfl⟩
  | cons a l ih =>
    obtain ⟨ha, hl⟩ := List.forall_mem_cons.1 h
    obtain ⟨iw, id⟩ := ih hl
    unfold waiting fromDue at *
    rw [List.takeWhile_cons, List.takeWhile_cons, List.dropWhile_cons, List.dropWhile_cons, due, due, ha, iw, id]
    exact ⟨rfl, rfl⟩

namespace Nodes

variable [DecidableEq ι] {nil : ι} {lay : Layout ι κ} {s : Nodes ι} {q : ListId ι κ → List ι} {c : ι}

theorem checkTimeout_of_not_due {r : ι} (h : due s.req r = false) :
    s.checkTimeout lay r = s.setReq r (s.req r).tick := by
  have h1 : (s.req r).timeoutTicks ≠ 1 := by simpa [due] using h
  unfold checkTimeout Request.tick
  rw [if_neg h1, if_neg h1]
  split
  · rfl
  · exact congrArg (Nodes.mk s.links) (Function.update_eq_self ..).symm

theorem checkTimeout_of_due {r : ι} (h : due s.req r = true) : s.checkTimeout lay r =
    ⟨(s.links.remove r).addTail (lay.msgList (lay.replyPort r)) r, Function.update s.req r (s.req r).tick⟩ := by
  have h1 : (s.req r).timeoutTicks = 1 := by simpa [due] using h
  unfold checkTimeout Request.tick
  rw [if_pos h1, if_pos h1]
  rfl

omit [DecidableEq ι] in
theorem mem_of_reached {req : ι → Request} {l : List ι} {r : ι} (h : r ∈ waiting req l ++ (fromDue req l).take 1) :
    r ∈ l := by
  rw [← waiting_append req l]
  obtain h | h := List.mem_append.1 h
  · exact List.mem_append_left _ h
  · exact List.mem_append_right _ (List.mem_of_mem_take h)

omit [DecidableEq ι] in
theorem mem_live_queue : ListId.queue c ∈ Layout.live q ↔ c ∈ q .cnns := Iff.rfl

omit [DecidableEq ι] in
theorem mem_live_port {p : κ} : ListId.port p ∈ Layout.live q := trivial

omit [DecidableEq ι] in
theorem live_congr {q' : ListId ι κ → List ι} (h : q' .cnns = q .cnns) : Layout.live q' = Layout.live q := by
  ext k
  cases k with
  | cnns => exact Iff.rfl
  | queue c => rw [mem_live_queue, mem_live_queue, h]
  | port p => exact Iff.rfl

variable [DecidableEq κ]

/-- A request that is not due, and then the rest of the queue. -/
theorem passed_cons {a : ι} {u w : List ι} {s' : Nodes ι} {q' : ListId ι κ → List ι} (hd : due s.req a = false)
    (ha : a ∉ w) (P : Passed nil lay c (u ++ [a]) w q (s.setReq a (s.req a).tick) s' q') :
    Passed nil lay c u (a :: w) q s s' q' := by
  have hreq : ∀ r ∈ w, (s.setReq a (s.req a).tick).req r = s.req r := fun r hr =>
    Function.update_of_ne (ne_of_mem_of_not_mem hr ha) ..
  obtain ⟨hw, hf⟩ := waiting_congr hreq
  have hqueue := P.queue
  have hport := P.port
  have hreached := P.reached
  have hothers := P.others
  rw [hw, hf] at hqueue hreached hothers
  rw [hf] at hport
  have hwc : waiting s.req (a :: w) = a :: waiting s.req w := List.takeWhile_cons_of_pos (by simp [hd])
  have hfc : fromDue s.req (a :: w) = fromDue s.req w := List.dropWhile_cons_of_pos (by simp [hd])
  have hna : a ∉ waiting s.req w ++ (fromDue s.req w).take 1 := fun hm => ha (mem_of_reached hm)
  refine ⟨P.lists, P.cnns, ?_, P.queues, fun p => ?_, fun r hr => ?_, fun r hr => ?_⟩
  · rw [hqueue, hwc, hfc]
    simp
  · rw [hport, hfc]
  · rw [hwc, hfc, List.cons_append] at hr
    obtain rfl | hr := List.mem_cons.1 hr
    · rw [hothers r hna]
      exact Function.update_self ..
    · rw [hreached r hr, hreq r (mem_of_reached hr)]
  · rw [hwc, hfc, List.cons_append, List.mem_cons, not_or] at hr
    rw [hothers r hr.2]
    exact Function.update_of_ne hr.1 ..

/-- A request that is due: it is moved to its port, and the loop is over. -/
theorem passed_due {a : ι} {u w : List ι} (hq : s.Intact nil lay q) (hc : c ∈ q .cnns) (he : q (.queue c) = u ++ a :: w)
    (hd : due s.req a = true) : ∃ q', Passed nil lay c u (a :: w) q s (s.checkTimeout lay a) q' ∧
      (s.checkTimeout lay a).links.succ ((s.checkTimeout lay a).links.succ a) = nil := by
  have hl : Linked nil s.links (lay.reqQueue c) (q (.queue c)) := hq.linked (.queue c) hc
  have hnil : a ≠ nil := fun h => hl.ne_nil (by simp [he, h])
  let q₁ := Function.update q (.queue c) (u ++ w)
  let p := lay.replyPort a
  have h₁ : Lists nil (s.links.remove a) (Layout.live q) lay.header q₁ := hq.remove hc he
  have h₂ : Lists nil _ (Layout.live q) lay.header (Function.update q₁ (.port p) (q₁ (.port p) ++ [a])) :=
    h₁.addTail mem_live_port (hq.notMem_removed hc he) hnil
  have hwc : waiting s.req (a :: w) = [] := List.takeWhile_cons_of_neg (by simp [hd])
  have hfc : fromDue s.req (a :: w) = a :: w := List.dropWhile_cons_of_neg (by simp [hd])
  rw [checkTimeout_of_due hd]
  refine ⟨Function.update q₁ (.port p) (q₁ (.port p) ++ [a]), ⟨?_, ?_, ?_, fun c' hc' => ?_, fun p' => ?_, fun r hr => ?_,
    fun r hr => ?_⟩, ?_⟩
  · rw [Intact, live_congr (q := q) (by simp [q₁])]
    exact h₂
  · simp [q₁]
  · rw [hwc, hfc]
    simp [q₁]
  · simp [q₁, hc']
  · rw [hfc]
    by_cases hp : p' = p
    · simp [q₁, p, hp]
    · have hpa : lay.replyPort a ≠ p' := fun h => hp h.symm
      simp [q₁, hp, hpa]
  · rw [hwc, hfc] at hr
    obtain rfl := List.mem_singleton.1 hr
    exact Function.update_self ..
  · rw [hwc, hfc] at hr
    exact Function.update_of_ne (fun h => hr (List.mem_singleton.2 h)) ..
  · -- behind the request there is nothing on its port
    have hp := h₂.linked (.port p) mem_live_port
    rw [Function.update_self] at hp
    have hs : Links.succ _ a = (lay.msgList p).tail := hp.succ_eq_headD
    exact (congrArg _ hs).trans hp.last

/-- The loop along a request queue, from the request on that it is at. -/
theorem pass (hc : c ∈ q .cnns) {w : List ι} : ∀ {u : List ι} {s : Nodes ι}, s.Intact nil lay q → q (.queue c) = u ++ w →
    ∃ s' q', forNodes nil links (fun s r => some (s.checkTimeout lay r)) (w.length + 1)
      (w.headD (lay.reqQueue c).tail) s = some s' ∧ Passed nil lay c u w q s s' q' := by
  induction w with
  | nil =>
    intro u s hq he
    have hl := hq.linked (.queue c) hc
    refine ⟨s, q, forNodes_end hl.last, hq, rfl, he, fun _ _ => rfl, fun p => ?_, fun r hr => ?_, fun _ _ => rfl⟩
    · exact (List.append_nil _).symm
    · exact absurd hr List.not_mem_nil
  | cons a w ih =>
    intro u s hq he
    have hl : Linked nil s.links (lay.reqQueue c) (q (.queue c)) := hq.linked (.queue c) hc
    rw [he] at hl
    rw [List.length_cons, List.headD_cons, forNodes_next hl.succ_ne_nil rfl]
    cases hd : due s.req a with
    | true =>
      obtain ⟨q', P, hn⟩ := passed_due hq hc he hd
      exact ⟨_, q', forNodes_end hn, P⟩
    | false =>
      rw [checkTimeout_of_not_due hd]
      have ha : a ∉ w := (List.nodup_cons.1 (List.nodup_append.1 hl.nodup_list).2.1).1
      have hn : (s.setReq a (s.req a).tick).links.succ a = w.headD (lay.reqQueue c).tail := hl.succ_eq_headD
      rw [hn]
      obtain ⟨s', q', hr, P⟩ := ih (u := u ++ [a]) (s := s.setReq a (s.req a).tick) hq (by simpa using he)
      exact ⟨s', q', hr, passed_cons hd ha P⟩

omit [DecidableEq ι] [DecidableEq κ] in
theorem tickRequests_map (req : ι → Request) (l : List ι) : Server.tickRequests (l.map req) =
    ((fromDue req l).head?.map fun r => (req r).tick,
      (waiting req l).map (fun r => (req r).tick) ++ ((fromDue req l).drop 1).map req) := by
  induction l with
  | nil => rfl
  | cons a l ih =>
    rw [List.map_cons, Server.tickRequests, ih]
    cases hd : due req a with
    | true =>
      have h1 : (req a).timeoutTicks = 1 := by simpa [due] using hd
      simp [waiting, fromDue, hd, h1, Request.tick]
    | false =>
      have h1 : (req a).timeoutTicks ≠ 1 := by simpa [due] using hd
      simp [waiting, fromDue, hd, h1, Request.tick]

omit [DecidableEq ι] in
/-- **The loop as the server's model has it**: what is left of the queue, and the request that is replied to. -/
theorem tickRequests_queue {s' : Nodes ι} {q' : ListId ι κ → List ι} (hq : s.Intact nil lay q) (hc : c ∈ q .cnns)
    (P : Passed nil lay c [] (q (.queue c)) q s s' q') :
    Server.tickRequests ((q (.queue c)).map s.req) =
      (((fromDue s.req (q (.queue c))).head?).map s'.req, (q' (.queue c)).map s'.req) := by
  have hn : (q (.queue c)).Nodup := (hq.linked (.queue c) hc).nodup_list
  rw [tickRequests_map, P.queue, List.nil_append, List.map_append]
  rw [← waiting_append s.req (q (.queue c)), ← List.take_append_drop 1 (fromDue s.req _), ← List.append_assoc,
    List.nodup_append] at hn
  have hw : ∀ r ∈ waiting s.req (q (.queue c)), s'.req r = (s.req r).tick := fun r hr =>
    P.reached r (List.mem_append_left _ hr)
  have hr : ∀ r ∈ (fromDue s.req (q (.queue c))).drop 1, s'.req r = s.req r := fun r hr =>
    P.others r fun hm => hn.2.2 r hm r hr rfl
  have hf : ∀ r ∈ (fromDue s.req (q (.queue c))).head?, s'.req r = (s.req r).tick := fun r hr =>
    P.reached r (List.mem_append_right _ (by
      rw [List.take_one]
      exact Option.mem_toList.2 hr))
  rw [List.map_congr_left hw, List.map_congr_left hr, Option.map_congr hf]

/-! ## All queues -/

/-- The requests of a queue that a tick comes to. -/
def reached (req : ι → Request) (l : List ι) : List ι := waiting req l ++ (fromDue req l).take 1

/-- What the loop over the connections has done when it has passed those of `v`. -/
structure Done (nil : ι) (lay : Layout ι κ) (q : ListId ι κ → List ι) (s : Nodes ι) (v : List ι) (s' : Nodes ι)
    (q' : ListId ι κ → List ι) : Prop where
  lists : s'.Intact nil lay q'
  cnns : q' .cnns = q .cnns
  queue : ∀ c ∈ v, q' (.queue c) = waiting s.req (q (.queue c)) ++ (fromDue s.req (q (.queue c))).drop 1
  queues : ∀ c, c ∉ v → q' (.queue c) = q (.queue c)
  port : ∀ p, q' (.port p) =
    q (.port p) ++ (v.flatMap fun c => (fromDue s.req (q (.queue c))).take 1).filter (lay.replyPort · = p)
  reached : ∀ c ∈ v, ∀ r ∈ reached s.req (q (.queue c)), s'.req r = (s.req r).tick
  others : ∀ r, (∀ c ∈ v, r ∉ Nodes.reached s.req (q (.queue c))) → s'.req r = s.req r

omit [DecidableEq ι] [DecidableEq κ] in
theorem queues_disjoint (hq : s.Intact nil lay q) {c c' r : ι} (hc : c ∈ q .cnns) (hc' : c' ∈ q .cnns) (hne : c ≠ c')
    (hr : r ∈ q (.queue c)) : r ∉ q (.queue c') := fun hr' =>
  hq.disjoint (.queue c) hc (.queue c') hc' (by simpa using hne) (Header.mem_nodes.2 (.inr (.inl hr)))
    (Header.mem_nodes.2 (.inr (.inl hr')))

omit [DecidableEq ι] in
theorem done_concat {v : List ι} {s' s'' : Nodes ι} {q' q'' : ListId ι κ → List ι} (hq : s.Intact nil lay q)
    (hv : ∀ c ∈ v, c ∈ q .cnns) (hc : c ∈ q .cnns) (hcv : c ∉ v) (D : Done nil lay q s v s' q')
    (P : Passed nil lay c [] (q (.queue c)) q' s' s'' q'') : Done nil lay q s (v ++ [c]) s'' q'' := by
  have hreq : ∀ r ∈ q (.queue c), s'.req r = s.req r := fun r hr => D.others r fun c' hc' hm =>
    queues_disjoint hq hc (hv c' hc') (ne_of_mem_of_not_mem hc' hcv).symm hr (mem_of_reached hm)
  obtain ⟨hw, hf⟩ := waiting_congr hreq
  have hqueue := P.queue
  have hport := P.port
  have hreached := P.reached
  have hothers := P.others
  rw [hw, hf] at hqueue hreached hothers
  rw [hf] at hport
  have hmem : ∀ c', c' ∈ v ++ [c] ↔ c' ∈ v ∨ c' = c := by simp
  refine ⟨P.lists, P.cnns.trans D.cnns, fun c' hc' => ?_, fun c' hc' => ?_, fun p => ?_, fun c' hc' r hr => ?_,
    fun r hr => ?_⟩
  · obtain hm | rfl := (hmem c').1 hc'
    · rw [P.queues c' (ne_of_mem_of_not_mem hm hcv), D.queue c' hm]
    · exact hqueue
  · rw [hmem, not_or] at hc'
    rw [P.queues c' hc'.2, D.queues c' hc'.1]
  · rw [hport, D.port]
    simp
  · obtain hm | rfl := (hmem c').1 hc'
    · rw [hothers r fun hr' => ?_, D.reached c' hm r hr]
      exact queues_disjoint hq (hv c' hm) hc (ne_of_mem_of_not_mem hm hcv) (mem_of_reached hr) (mem_of_reached hr')
    · rw [hreached r hr, hreq r (mem_of_reached hr)]
  · rw [hothers r (hr c ((hmem c).2 (.inr rfl)))]
    exact D.others r fun c' hm => hr c' ((hmem c').2 (.inl hm))

/-- One connection, with room for all its requests. -/
theorem cnnCheck_done {n : Nat} {v : List ι} {s' : Nodes ι} {q' : ListId ι κ → List ι} (hq : s.Intact nil lay q)
    (hv : ∀ c ∈ v, c ∈ q .cnns) (hc : c ∈ q .cnns) (hcv : c ∉ v) (hn : (q (.queue c)).length < n)
    (D : Done nil lay q s v s' q') :
    ∃ s'' q'', cnnCheckRequestTimeouts nil lay n s' c = some s'' ∧ Done nil lay q s (v ++ [c]) s'' q'' := by
  have hcq : c ∈ q' .cnns := D.cnns.symm ▸ hc
  have hl : Linked nil s'.links (lay.reqQueue c) (q' (.queue c)) := D.lists.linked (.queue c) hcq
  obtain ⟨s'', q'', hr, P⟩ := pass hcq (u := []) D.lists rfl
  rw [D.queues c hcv] at hr P hl
  refine ⟨s'', q'', ?_, done_concat hq hv hc hcv D P⟩
  rw [cnnCheckRequestTimeouts, hl.succ_head]
  exact forNodes_mono (fun _ _ _ h => h) hn hr

/-- `APB_CheckRequestTimeouts` comes to the end of all lists. -/
theorem checkRequestTimeouts_done (hq : s.Intact nil lay q) : ∃ s' q',
    (∃ N, ∀ n ≥ N, checkRequestTimeouts nil lay n s = some s') ∧ Done nil lay q s (q .cnns) s' q' := by
  have hcl : Linked nil s.links lay.cnns (q .cnns) := hq.linked .cnns trivial
  let N := (q .cnns).length + 1 + ((q .cnns).map fun c => (q (.queue c)).length + 1).sum
  have hN : ∀ c ∈ q .cnns, (q (.queue c)).length < N := by
    intro c hc
    have hle : (q (.queue c)).length + 1 ≤ ((q .cnns).map fun c => (q (.queue c)).length + 1).sum :=
      List.single_le_sum (by simp) _ (List.mem_map_of_mem hc)
    omega
  have hbody : ∀ v c w s', q .cnns = v ++ c :: w → Linked nil s'.links lay.cnns (q .cnns) →
      (∃ q', Done nil lay q s v s' q') → ∃ s'', cnnCheckRequestTimeouts nil lay N s' c = some s'' ∧
        Linked nil s''.links lay.cnns (q .cnns) ∧ ∃ q'', Done nil lay q s (v ++ [c]) s'' q'' := by
    intro v c w s' he hl hD
    obtain ⟨q', D⟩ := hD
    have hn : (q .cnns).Nodup := hcl.nodup_list
    have hc : c ∈ q .cnns := by simp [he]
    have hcv : c ∉ v := fun hm => by
      rw [he, List.nodup_append] at hn
      exact hn.2.2 c hm c List.mem_cons_self rfl
    have hv : ∀ c ∈ v, c ∈ q .cnns := fun c hm => he ▸ List.mem_append_left _ hm
    obtain ⟨s'', q'', hr, D'⟩ := cnnCheck_done hq hv hc hcv (hN c hc) D
    refine ⟨s'', hr, ?_, q'', D'⟩
    rw [← D'.cnns]
    exact D'.lists.linked .cnns trivial
  have hstart : Done nil lay q s [] s q := ⟨hq, rfl, fun _ hc => absurd hc List.not_mem_nil, fun _ _ => rfl,
    fun p => by simp, fun _ hc => absurd hc List.not_mem_nil, fun _ _ => rfl⟩
  obtain ⟨s', hr, -, q', D⟩ := forNodes_linked hcl ⟨q, hstart⟩ hbody
  refine ⟨s', q', ⟨N, fun n hn => ?_⟩, D⟩
  exact forNodes_mono (fun t c t' ht => forNodes_mono (fun _ _ _ h => h) hn ht) (by omega) hr

/-! ## Every request once -/

/-- Behind a request that is due there are only requests that do not time out. -/
def DueLast (req : ι → Request) (l : List ι) : Prop :=
  l.Pairwise fun a b => (req a).timeoutTicks = 1 → (req b).timeoutTicks = 0

instance (req : ι → Request) (l : List ι) : Decidable (DueLast req l) := inferInstanceAs (Decidable (List.Pairwise ..))

omit [DecidableEq ι] in
theorem due_of_fromDue {req : ι → Request} {l w : List ι} {a : ι} (h : fromDue req l = a :: w) : due req a = true := by
  have hd := List.head?_dropWhile_not (fun r => !due req r) l
  rw [← fromDue, h] at hd
  simpa using hd

omit [DecidableEq ι] in
theorem not_due_of_waiting {req : ι → Request} {l : List ι} {r : ι} (h : r ∈ waiting req l) : due req r = false := by
  simpa using List.mem_takeWhile_imp h

omit [DecidableEq ι] in
theorem dueLast_iff {req : ι → Request} {l : List ι} :
    DueLast req l ↔ ∀ r ∈ (fromDue req l).drop 1, (req r).timeoutTicks = 0 := by
  have hl := waiting_append req l
  constructor
  · intro h r hr
    cases hf : fromDue req l with
    | nil =>
      rw [hf] at hr
      exact absurd hr List.not_mem_nil
    | cons a w =>
      rw [DueLast, ← hl, hf, List.pairwise_append, List.pairwise_cons] at h
      rw [hf] at hr
      exact h.2.1.1 r hr (by simpa [due] using due_of_fromDue hf)
  · intro h
    rw [DueLast, ← hl, List.pairwise_append]
    have hw : ∀ r ∈ waiting req l, (req r).timeoutTicks ≠ 1 := fun r hr => by
      simpa [due] using not_due_of_waiting hr
    refine ⟨List.pairwise_of_forall_mem_list fun a ha b _ h1 => absurd h1 (hw a ha), ?_, fun a ha b _ h1 => absurd h1 (hw a ha)⟩
    cases hf : fromDue req l with
    | nil => exact List.Pairwise.nil
    | cons a w =>
      rw [hf] at h
      refine List.pairwise_cons.2 ⟨fun b hb _ => h b hb, List.pairwise_of_forall_mem_list fun b hb c hc _ => h c hc⟩

omit [DecidableEq ι] in
/-- Where none of the requests that the loop does not come to is due, it finds all that are. -/
theorem filter_due {req : ι → Request} {l : List ι} (h : ∀ r ∈ (fromDue req l).drop 1, due req r = false) :
    l.filter (fun r => !due req r) = waiting req l ++ (fromDue req l).drop 1 ∧
      l.filter (due req) = (fromDue req l).take 1 := by
  have hw : (waiting req l).filter (due req) = [] :=
    List.filter_eq_nil_iff.2 fun r hr => by simp [not_due_of_waiting hr]
  have hw' : (waiting req l).filter (fun r => !due req r) = waiting req l :=
    List.filter_eq_self.2 fun r hr => by simp [not_due_of_waiting hr]
  have hl : ∀ p : ι → Bool, l.filter p = (waiting req l).filter p ++ (fromDue req l).filter p := fun p => by
    rw [← List.filter_append, waiting_append]
  rw [hl, hl, hw, hw']
  cases hf : fromDue req l with
  | nil => exact ⟨rfl, rfl⟩
  | cons a w =>
    rw [hf] at h
    have hn : w.filter (due req) = [] := List.filter_eq_nil_iff.2 fun r hr => by simp [h r hr]
    have hn' : w.filter (fun r => !due req r) = w := List.filter_eq_self.2 fun r hr => by simp [h r hr]
    have hd := due_of_fromDue hf
    simp [hd, hn, hn']

omit [DecidableEq ι] in
theorem tick_of_zero {r : Request} (h : r.timeoutTicks = 0) : r.tick = r := by
  simp [Request.tick, h]

/-- A request that a tick leaves as it is and does not reply to has no timeout. -/
theorem zero_of_tick {r : Request} (h1 : r.timeoutTicks ≠ 1) (h : r.tick = r) : r.timeoutTicks = 0 := by
  unfold Request.tick at h
  rw [if_neg h1] at h
  split at h
  · rename_i hlt
    have ht : r.timeoutTicks - 1 = r.timeoutTicks := congrArg Request.timeoutTicks h
    have hle : (1 : UInt16) ≤ r.timeoutTicks := UInt16.le_of_lt hlt
    have hs := congrArg UInt16.toNat ht
    rw [UInt16.toNat_sub_of_le _ _ hle] at hs
    have h0 := UInt16.lt_iff_toNat_lt.1 hlt
    simp only [UInt16.toNat_one] at hs h0
    omega
  · rename_i hlt
    rw [UInt16.lt_iff_toNat_lt] at hlt
    have hne : r.timeoutTicks.toNat ≠ 1 := fun h => h1 (UInt16.toNat_inj.1 h)
    refine UInt16.toNat_inj.1 ?_
    simp only [UInt16.toNat_one, UInt16.toNat_zero] at hlt ⊢
    omega

omit [DecidableEq ι] in
/-- The requests behind the first one that is due are the ones that the loop does not come to. -/
theorem not_reached {req : ι → Request} {l : List ι} (hl : l.Nodup) {r : ι} (hr : r ∈ (fromDue req l).drop 1) :
    r ∉ reached req l := by
  rw [← waiting_append req l, ← List.take_append_drop 1 (fromDue req l), ← List.append_assoc, List.nodup_append] at hl
  exact fun hm => hl.2.2 r hm r hr rfl

omit [DecidableEq ι] in
theorem mem_reached_or {req : ι → Request} {l : List ι} {r : ι} (hr : r ∈ l) :
    r ∈ reached req l ∨ r ∈ (fromDue req l).drop 1 := by
  rw [← waiting_append req l, ← List.take_append_drop 1 (fromDue req l), ← List.append_assoc, List.mem_append] at hr
  exact hr

omit [DecidableEq ι] in
/-- The requests that the loop does not come to are as they were. -/
theorem Done.unreached {s' : Nodes ι} {q' : ListId ι κ → List ι} (hq : s.Intact nil lay q)
    (D : Done nil lay q s (q .cnns) s' q') (hc : c ∈ q .cnns) {r : ι}
    (hr : r ∈ (fromDue s.req (q (.queue c))).drop 1) : s'.req r = s.req r := by
  have hm : r ∈ q (.queue c) := by
    rw [← waiting_append s.req (q (.queue c))]
    exact List.mem_append_right _ (List.mem_of_mem_drop hr)
  refine D.others r fun c' hc' hr' => ?_
  by_cases h : c = c'
  · subst h
    exact not_reached (hq.linked (.queue c) hc).nodup_list hr hr'
  · exact queues_disjoint hq hc hc' h hm (mem_of_reached hr')

omit [DecidableEq ι] in
theorem once_of_dueLast {s' : Nodes ι} {q' : ListId ι κ → List ι} (hq : s.Intact nil lay q)
    (D : Done nil lay q s (q .cnns) s' q') (h : ∀ c ∈ q .cnns, DueLast s.req (q (.queue c))) : Once nil lay q s s' := by
  have hz : ∀ c ∈ q .cnns, ∀ r ∈ (fromDue s.req (q (.queue c))).drop 1, (s.req r).timeoutTicks = 0 :=
    fun c hc => dueLast_iff.1 (h c hc)
  have hf : ∀ c ∈ q .cnns, ∀ r ∈ (fromDue s.req (q (.queue c))).drop 1, due s.req r = false :=
    fun c hc r hr => by simp [due, hz c hc r hr]
  refine ⟨?_, fun c hc r hr => ?_, fun r hr => D.others r fun c hc hm => hr c hc (mem_of_reached hm)⟩
  · have hlive : Layout.live (ticked lay s.req q) = Layout.live q' := live_congr D.cnns.symm
    rw [Intact, hlive]
    refine D.lists.congr fun k hk => ?_
    cases k with
    | cnns => exact D.cnns.symm
    | queue c =>
      have hc : c ∈ q .cnns := D.cnns ▸ hk
      exact (filter_due (hf c hc)).1.trans (D.queue c hc).symm
    | port p =>
      rw [D.port, ticked]
      congr 2
      exact List.flatMap_congr fun c hc => (filter_due (hf c hc)).2
  · obtain hm | hm := mem_reached_or hr
    · exact D.reached c hc r hm
    · rw [D.unreached hq hc hm, tick_of_zero (hz c hc r hm)]

omit [DecidableEq ι] in
theorem dueLast_of_once {s' : Nodes ι} {q' : ListId ι κ → List ι} (hq : s.Intact nil lay q)
    (D : Done nil lay q s (q .cnns) s' q') (h : Once nil lay q s s') : ∀ c ∈ q .cnns, DueLast s.req (q (.queue c)) := by
  intro c hc
  refine dueLast_iff.2 fun r hr => ?_
  have hm : r ∈ q (.queue c) := by
    rw [← waiting_append s.req (q (.queue c))]
    exact List.mem_append_right _ (List.mem_of_mem_drop hr)
  have hlive : Layout.live (ticked lay s.req q) = Layout.live q' := live_congr D.cnns.symm
  have hl := h.lists
  rw [Intact, hlive] at hl
  have hqc : q' (.queue c) = (q (.queue c)).filter fun r => !due s.req r :=
    D.lists.unique hl (mem_live_queue.2 (by rw [D.cnns]; exact hc))
  have hd : r ∈ (q (.queue c)).filter fun r => !due s.req r := by
    rw [← hqc, D.queue c hc]
    exact List.mem_append_right _ hr
  refine zero_of_tick (by simpa [due] using (List.mem_filter.1 hd).2) ?_
  rw [← h.ticks c hc r hm, D.unreached hq hc hr]

/-- **One tick.** `APB_CheckRequestTimeouts` comes to its end, and it has treated every queued request once if and only if
behind a request that is due there were only requests without a timeout. -/
theorem checkRequestTimeouts_once (hq : s.Intact nil lay q) : ∃ s',
    (∃ N, ∀ n ≥ N, checkRequestTimeouts nil lay n s = some s') ∧
      (Once nil lay q s s' ↔ ∀ c ∈ q .cnns, DueLast s.req (q (.queue c))) := by
  obtain ⟨s', q', hr, D⟩ := checkRequestTimeouts_done hq
  exact ⟨s', hr, dueLast_of_once hq D, once_of_dueLast hq D⟩

/-! ## Two requests -/

/-- One connection, with node 10, and one reply port. -/
def oneConnection : Layout Nat Unit :=
  { cnns := ⟨1, 2⟩, reqQueue := fun _ => ⟨20, 21⟩, msgList := fun _ => ⟨30, 31⟩, replyPort := fun _ => () }

/-- What is on the lists. -/
def twoQueued : ListId Nat Unit → List Nat
  | .cnns => [10]
  | .queue _ => [100, 101]
  | .port _ => []

/-- The links of these lists. -/
def twoLinked : Links Nat where
  succ n := ([(1, 10), (10, 2), (20, 100), (100, 101), (101, 21), (30, 31)].lookup n).getD 0
  pred n := ([(10, 1), (2, 10), (100, 20), (101, 100), (21, 101), (31, 30)].lookup n).getD 0

theorem lists_twoLinked : Lists 0 twoLinked (Layout.live twoQueued) oneConnection.header twoQueued := by
  have hall : ∀ k ∈ Layout.live twoQueued, k = .cnns ∨ k = .queue 10 ∨ k = .port () := by
    rintro (_ | c | p) hk
    · exact .inl rfl
    · obtain rfl := List.mem_singleton.1 (mem_live_queue.1 hk)
      exact .inr (.inl rfl)
    · exact .inr (.inr rfl)
  refine ⟨fun k hk => ?_, fun k hk => ?_, fun k hk k' hk' hne => ?_⟩
  · obtain rfl | rfl | rfl := hall k hk
    · exact ⟨by decide, by decide, by decide, by decide⟩
    · exact ⟨by decide, by decide, by decide, by decide⟩
    · exact ⟨by decide, by decide, by decide, by decide⟩
  · obtain rfl | rfl | rfl := hall k hk <;> rfl
  · have hd : ∀ k ∈ [ListId.cnns, .queue 10, .port ()], ∀ k' ∈ [ListId.cnns, .queue 10, .port ()], k ≠ k' →
        ∀ r ∈ (oneConnection.header k).nodes (twoQueued k), r ∉ (oneConnection.header k').nodes (twoQueued k') := by
      decide
    exact fun r hr hr' => hd k (by simpa using hall k hk) k' (by simpa using hall k' hk') hne r hr hr'

/-- Requests 100 and 101 are queued, with so many ticks left. -/
def twoReads (t t' : UInt16) : Nodes Nat where
  links := twoLinked
  req := fun n =>
    { num := n, type := rtRead, connId := 1, handlerId := 1, state := .ok, actual := 0, length := 0, timeout := 5,
      data := [], timeoutTicks := if n = 100 then t else t' }

/-- Both are due. The second one is not replied to. -/
theorem second_not_replied : (twoReads 1 1).Intact 0 oneConnection twoQueued ∧ ∃ s',
    (∃ N, ∀ n ≥ N, checkRequestTimeouts 0 oneConnection n (twoReads 1 1) = some s') ∧
      ¬Once 0 oneConnection twoQueued (twoReads 1 1) s' := by
  have hq : (twoReads 1 1).Intact 0 oneConnection twoQueued := lists_twoLinked
  obtain ⟨s', q', hr, D⟩ := checkRequestTimeouts_done hq
  refine ⟨hq, s', hr, fun h => ?_⟩
  have hd := dueLast_of_once hq D h 10 (by decide)
  exact absurd hd (by decide)

/-- Only the second one is due. -/
theorem second_replied : ∃ s', (∃ N, ∀ n ≥ N, checkRequestTimeouts 0 oneConnection n (twoReads 3 1) = some s') ∧
    Once 0 oneConnection twoQueued (twoReads 3 1) s' := by
  obtain ⟨s', hr, h⟩ := checkRequestTimeouts_once (s := twoReads 3 1) lists_twoLinked
  exact ⟨s', hr, h.2 (by decide)⟩

end Nodes

end AmiPiBorg
