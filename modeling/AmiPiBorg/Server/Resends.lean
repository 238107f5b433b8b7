import AmiPiBorg.Server.Books

/-!
# Lost packets are asked for

A packet whose id is not the next one makes the server ask for the packets between. Only `noteId` does so: every other
part of the server sends no `PT_RESEND` and leaves `lastInPackId` alone (`Tacit`). The ids are compared as numbers and
not modulo `2 ^ 16`, so what was lost is asked for if and only if neither the id 65535 nor the id 0 is lost
(`lost_asked_for`). `wrap_unnoticed` is a run of 65534 packets after which two packets are lost.
-/

set_option autoImplicit false

namespace AmiPiBorg.Server

open ProgLib

variable {env : Env} {s s' t : Server} {c : Connection} {ip : InPac} {req : Request} {e : Event} {es : List Event}

/-- A `PT_RESEND` for this id. -/
def resendRequest (packId : UInt16) : OutPac :=
  { cnn := none, connId := defaultConnection, type := ptResend, data := be16 packId }

/-! ## What sends no `PT_RESEND` -/

/-- Nothing is asked for, and nothing is heard. -/
structure Tacit (s s' : Server) : Prop where
  last : s'.lastInPackId = s.lastInPackId
  heard : s'.heard = s.heard
  out : ∃ os, s'.out = s.out ++ os ∧ ∀ o ∈ os, o.type ≠ ptResend

theorem Tacit.of_eq (h₁ : s'.lastInPackId = s.lastInPackId) (h₂ : s'.heard = s.heard) (h₃ : s'.out = s.out) :
    Tacit s s' := ⟨h₁, h₂, [], h₃.trans (List.append_nil _).symm, fun _ h => by cases h⟩

theorem Tacit.refl (s : Server) : Tacit s s := .of_eq rfl rfl rfl

theorem Tacit.trans (h : Tacit s s') (h' : Tacit s' t) : Tacit s t := by
  obtain ⟨os, ho, hos⟩ := h.out
  obtain ⟨os', ho', hos'⟩ := h'.out
  refine ⟨h'.last.trans h.last, h'.heard.trans h.heard, os ++ os', ?_, fun o hm => ?_⟩
  · rw [ho', ho, List.append_assoc]
  · exact (List.mem_append.1 hm).elim (hos o) (hos' o)

/-- The rest of the server may change. -/
theorem Tacit.congr (h : Tacit s s') (h₁ : t.lastInPackId = s'.lastInPackId) (h₂ : t.heard = s'.heard)
    (h₃ : t.out = s'.out) : Tacit s t := h.trans (.of_eq h₁ h₂ h₃)

theorem tacit_send (env : Env) (s : Server) (length : Nat) (o : OutPac) (ho : o.type ≠ ptResend) :
    Tacit s (s.send env length o).1 := by
  obtain ⟨os, h, hos⟩ := send_eq env s length o
  rw [h]
  refine ⟨rfl, rfl, os, rfl, fun o' hm => ?_⟩
  obtain ⟨rfl, -⟩ | ⟨rfl, -⟩ := hos
  · cases hm
  · rw [List.mem_singleton.1 hm]
    exact ho

theorem tacit_sendPing (env : Env) (s : Server) : Tacit s (s.sendPing env) := by
  have h := tacit_send env s sizeofPacket ⟨none, defaultConnection, ptPing, []⟩ (by decide)
  unfold sendPing
  dsimp only
  split
  · exact h.congr rfl rfl rfl
  · exact h

theorem tacit_cnnConnect (env : Env) (s : Server) (c : Connection) : Tacit s (s.cnnConnect env c).1 :=
  tacit_send env s 16 _ (by decide : ptConnect ≠ ptResend)

theorem tacit_disconnect (env : Env) (s : Server) (c : Connection) :
    Tacit s (if c.state < csDisconnecting then s.cnnDisconnect env c else (s, c)).1 := by
  split
  · exact tacit_send env s sizeofPacket _ (by decide : ptDisconnect ≠ ptResend)
  · exact .refl s

theorem tacit_pushToClient (s : Server) (c : Connection) : Tacit s (s.pushToClient c).1 := by
  unfold pushToClient
  split
  · exact .refl s
  · exact .of_eq rfl rfl rfl

theorem tacit_replyRequest (s : Server) (c : Connection) (type : UInt16) (state : RequestState) :
    Tacit s (s.replyRequest c type state).1 := by
  unfold replyRequest
  split
  · exact .refl s
  · exact .of_eq rfl rfl rfl

theorem tacit_handleConnectionPacket (env : Env) (s : Server) (c : Connection) (ip : InPac) :
    Tacit s (s.handleConnectionPacket env c ip) := by
  have hrel : Tacit s (s.release ip) := .of_eq rfl rfl rfl
  unfold handleConnectionPacket
  dsimp only
  split
  · exact (hrel.trans (tacit_replyRequest _ _ rtOpen .ok)).congr rfl rfl rfl
  split
  · unfold destroyConnection
    exact (hrel.trans (tacit_disconnect env _ _)).congr rfl rfl rfl
  split
  · exact (tacit_replyRequest s _ rtOpen .noHandler).congr rfl rfl rfl
  split
  · exact hrel
  · have h : Tacit s { s with handed := s.handed ++ [(c.num, ip)] } := .of_eq rfl rfl rfl
    exact (h.trans (tacit_pushToClient _ _)).congr rfl rfl rfl

theorem tacit_handleControlPacket (env : Env) (s : Server) (ip : InPac) : Tacit s (s.handleControlPacket env ip) := by
  unfold handleControlPacket
  dsimp only
  split
  · have h : Tacit s { s with state := .connected } := .of_eq rfl rfl rfl
    exact (h.trans (tacit_sendPing env _)).congr rfl rfl rfl
  · split
    · exact .of_eq rfl rfl rfl
    · split
      · exact .of_eq rfl rfl rfl
      · exact .of_eq rfl rfl rfl

/-- **What becomes of a packet** asks for nothing. -/
theorem tacit_dispatch (env : Env) (s : Server) (ip : InPac) : Tacit s (s.dispatch env ip) := by
  unfold dispatch
  split
  · exact tacit_handleControlPacket env s ip
  · split
    · have h := tacit_send env s sizeofPacket ⟨none, ip.pac.connId, ptNoConnection, []⟩
        (by decide : ptNoConnection ≠ ptResend)
      exact h.congr rfl rfl rfl
    · exact tacit_handleConnectionPacket env s _ ip

theorem tacit_handleClientRequest (env : Env) (s : Server) (c : Connection) (req : Request) :
    Tacit s (s.handleClientRequest env c req) := by
  obtain ⟨r, -, ⟨-, h⟩ | ⟨-, h⟩ | ⟨-, h⟩ | ⟨-, -, -, -, h⟩ | h⟩ := handleClientRequest_cases env s c req
  · rw [h]
    exact (tacit_cnnConnect env s _).congr rfl rfl rfl
  · rw [h]
    exact (tacit_disconnect env s c).congr rfl rfl rfl
  · rw [h]
    exact (tacit_pushToClient s _).congr rfl rfl rfl
  · rw [h]
    exact (tacit_send env s _ ⟨some c.num, c.id, ptData, _⟩ (by decide : ptData ≠ ptResend)).congr rfl rfl rfl
  · rw [h]
    exact .of_eq rfl rfl rfl

theorem tacit_receiveRequest (h : s.receiveRequest env req = some s') : Tacit s s' := by
  obtain ⟨r, -, ⟨t, rfl | rfl, rfl⟩ | ⟨c, -, rfl, -⟩ | ⟨-, -, state, -, rfl, -⟩⟩ := receiveRequest_cases h
  · exact .of_eq rfl rfl rfl
  · exact .of_eq rfl rfl rfl
  · exact tacit_handleClientRequest env s c r
  · have hw : Tacit s (s.withNew state) := .of_eq rfl rfl rfl
    exact hw.trans (tacit_handleClientRequest env _ _ r)

theorem tacit_foldl {f : Server → Connection → Server} (hf : ∀ s c, Tacit s (f s c)) :
    ∀ (l : List Connection) (s : Server), Tacit s (l.foldl f s)
  | [], s => .refl s
  | c :: l, s => (hf s c).trans (tacit_foldl hf l (f s c))

theorem tacit_handleTimer (env : Env) (s : Server) : Tacit s (s.handleTimer env) := by
  unfold handleTimer
  dsimp only
  split
  · exact .of_eq rfl rfl rfl
  · have hc : Tacit s s.checkPing := by
      unfold checkPing
      dsimp only
      split
      · split
        · exact .of_eq rfl rfl rfl
        · exact .of_eq rfl rfl rfl
      · split
        · exact .of_eq rfl rfl rfl
        · exact .refl s
    have hn : Tacit s.checkPing (s.checkPing.nextPing env) := by
      unfold nextPing
      split
      · exact tacit_sendPing env _
      · split
        · exact .of_eq rfl rfl rfl
        · exact .refl _
    have hr : ∀ t : Server, Tacit t t.checkRequestTimeouts := by
      intro t
      apply tacit_foldl
      intro u c
      exact .of_eq rfl rfl rfl
    exact ((hc.trans hn).trans (hr _)).congr rfl rfl rfl
  · exact .of_eq rfl rfl rfl
  · exact .of_eq rfl rfl rfl

theorem tacit_runStep (env : Env) (s : Server) (ok : Bool) : Tacit s (s.runStep env ok) := by
  unfold runStep
  split
  case h_4 =>
    obtain ⟨o, state, phase, -, ht, h, -⟩ := sendInit_eq env s
    rw [h]
    exact (tacit_send env s 18 o (by rw [ht]; decide)).congr rfl rfl rfl
  case h_9 =>
    obtain ⟨o, state, phase, -, ht, h, -⟩ := sendShutdown_eq env s
    rw [h]
    exact (tacit_send env s sizeofPacket o (by rw [ht]; decide)).congr rfl rfl rfl
  all_goals exact .of_eq rfl rfl rfl

/-- **What is no packet** asks for nothing. -/
theorem tacit_step (hp : ∀ seq pac, e ≠ .packet seq pac) (h : step env s e = some s') : Tacit s s' := by
  cases e with
  | run ok =>
    cases h
    exact tacit_runStep env s ok
  | wake brk =>
    cases h
    split
    · exact .of_eq rfl rfl rfl
    · exact .of_eq rfl rfl rfl
  | timer fired =>
    cases h
    cases fired with
    | false => exact .of_eq rfl rfl rfl
    | true => exact (tacit_handleTimer env s).congr rfl rfl rfl
  | request req =>
    have ht : Tacit s { s with taken := s.taken + 1 } := .of_eq rfl rfl rfl
    exact ht.trans (tacit_receiveRequest h)
  | requestsDone =>
    cases h
    exact .of_eq rfl rfl rfl
  | packet seq pac => exact absurd rfl (hp seq pac)
  | packetsDone =>
    cases h
    exact .of_eq rfl rfl rfl

/-! ## What is asked for -/

/-- The number of the last packet that was not sent again. -/
def lastHeard (s : Server) : Option Nat := ((s.heard.filter fun h => !h.2).map Prod.fst).getLast?

/-- The ids of the packets between packets `p` and `q`. -/
def lostIds (p q : Nat) : List UInt16 := (List.range (q - p - 1)).map fun i => UInt16.ofNat (p + 1 + i)

/-- What the server asks for on the way from `s` to `s'`. -/
def askedFor (s s' : Server) : List OutPac := (s'.out.drop s.out.length).filter fun o => o.type = ptResend

theorem mem_lostIds {p q : Nat} {x : UInt16} : x ∈ lostIds p q ↔ ∃ k, p < k ∧ k < q ∧ k % 65536 = x.toNat := by
  unfold lostIds
  simp only [List.mem_map, List.mem_range]
  constructor
  · rintro ⟨i, hi, rfl⟩
    refine ⟨p + 1 + i, by omega, by omega, ?_⟩
    rw [UInt16.toNat_ofNat']
  · rintro ⟨k, hk, hq, hx⟩
    refine ⟨k - p - 1, by omega, UInt16.toNat_inj.1 ?_⟩
    rw [UInt16.toNat_ofNat', ← hx]
    congr 1
    omega

/-- **The test for a gap**: it finds what was lost unless the ids go past 65535. -/
theorem gap_cases {p q : Nat} {last cur : UInt16} (hlast : last = UInt16.ofNat p) (hcur : cur = UInt16.ofNat q)
    (hpq : p < q) (hq : q ≤ p + 1000) :
    (lostIds p q = [] ∧ ¬(last.toNat : Int) < cur.toNat - 1) ∨
    ((0 ∉ lostIds p q ∧ 65535 ∉ lostIds p q) ∧ (last.toNat : Int) < cur.toNat - 1 ∧
      cur.toNat - (last + 1).toNat = q - p - 1) ∨
    (lostIds p q ≠ [] ∧ ¬(0 ∉ lostIds p q ∧ 65535 ∉ lostIds p q) ∧ ¬(last.toNat : Int) < cur.toNat - 1) := by
  have hl : last.toNat = p % 65536 := by rw [hlast, UInt16.toNat_ofNat']
  have hc : cur.toNat = q % 65536 := by rw [hcur, UInt16.toNat_ofNat']
  have hl1 : (last + 1).toNat = (p % 65536 + 1) % 65536 := by
    rw [UInt16.toNat_add, hl]
    rfl
  rw [hl1, hl, hc]
  by_cases h1 : q = p + 1
  · left
    refine ⟨?_, by omega⟩
    rw [h1, lostIds, Nat.add_sub_cancel_left]
    rfl
  · right
    by_cases hw : p % 65536 < q % 65536
    · left
      refine ⟨⟨fun hm => ?_, fun hm => ?_⟩, by omega, by omega⟩
      · obtain ⟨k, h₁, h₂, h₃⟩ := mem_lostIds.1 hm
        have h₄ : k % 65536 = 0 := h₃
        omega
      · obtain ⟨k, h₁, h₂, h₃⟩ := mem_lostIds.1 hm
        have h₄ : k % 65536 = 65535 := h₃
        omega
    · right
      refine ⟨fun he => ?_, fun hn => ?_, by omega⟩
      · have hlen := congrArg List.length he
        rw [lostIds, List.length_map, List.length_range, List.length_nil] at hlen
        omega
      · -- the first id of the next round is lost, or the last one of this round
        by_cases hp : p % 65536 = 65535
        · exact hn.1 (mem_lostIds.2 ⟨p + 1, by omega, by omega, (by omega : (p + 1) % 65536 = 0)⟩)
        · apply hn.2
          apply mem_lostIds.2
          exact ⟨p + (65535 - p % 65536), by omega, by omega,
            (by omega : (p + (65535 - p % 65536)) % 65536 = 65535)⟩

/-- The loop of `APB_RequestResend` asks for every id, if the packets can be had. -/
theorem requestResends_out (env : Env) : ∀ (n : Nat) (packId : UInt16) (s : Server),
    (∀ i < n, env.packet (s.allocs + i) = true) → (requestResends env n packId s).out =
      s.out ++ (List.range n).map fun i => resendRequest (packId + UInt16.ofNat i)
  | 0, _, s, _ => (List.append_nil _).symm
  | n + 1, packId, s, hp => by
    have h₀ : env.packet s.allocs = true := hp 0 (Nat.succ_pos n)
    unfold requestResends
    rw [send_of_packet (by decide) (by decide) h₀, if_pos rfl]
    rw [requestResends_out env n (packId + 1) _ fun i hi => by
      rw [← hp (i + 1) (by omega)]
      congr 1
      show s.allocs + 1 + i = s.allocs + (i + 1)
      omega]
    rw [List.range_succ_eq_map, List.map_cons, List.map_map, List.append_assoc, List.singleton_append]
    congr 2
    · show resendRequest packId = resendRequest (packId + 0)
      rw [UInt16.add_zero]
    · apply List.map_congr_left
      intro i _
      show resendRequest (packId + 1 + UInt16.ofNat i) = resendRequest (packId + UInt16.ofNat (i + 1))
      rw [UInt16.ofNat_add, UInt16.add_assoc, UInt16.add_comm 1]
      rfl

theorem heard_handlePacket (env : Env) (s : Server) (ip : InPac) :
    (s.handlePacket env ip).heard = s.heard ++ [(ip.seq, decide (Resent ip))] := by
  rw [handlePacket_eq, (tacit_dispatch env _ ip).heard, (quiet_noteId env _ ip).heard]
  rfl

theorem last_handlePacket (env : Env) (s : Server) (ip : InPac) :
    (s.handlePacket env ip).lastInPackId = if Resent ip then s.lastInPackId else ip.pac.packId := by
  rw [handlePacket_eq, (tacit_dispatch env _ ip).last]
  unfold noteId
  dsimp only
  split
  · rfl
  · rfl

theorem lastHeard_handlePacket (env : Env) (s : Server) (ip : InPac) :
    (s.handlePacket env ip).lastHeard = if Resent ip then s.lastHeard else some ip.seq := by
  unfold lastHeard
  rw [heard_handlePacket, List.filter_append, List.map_append]
  split
  · next hr => simp [hr]
  · next hr => simp [hr]

/-- What a packet that was not sent again makes the server ask for. -/
theorem askedFor_handlePacket (hr : ¬Resent ip)
    (hp : (s.lastInPackId.toNat : Int) < ip.pac.packId.toNat - 1 →
      ∀ i < ip.pac.packId.toNat - (s.lastInPackId + 1).toNat, env.packet (s.allocs + i) = true) :
    askedFor s (s.handlePacket env ip) =
      if (s.lastInPackId.toNat : Int) < ip.pac.packId.toNat - 1 then
        (List.range (ip.pac.packId.toNat - (s.lastInPackId + 1).toNat)).map fun i =>
          resendRequest (s.lastInPackId + 1 + UInt16.ofNat i)
      else [] := by
  have hn : ∃ as, ((s.hear ip).noteId env ip).out = s.out ++ as ∧ (∀ o ∈ as, o.type = ptResend) ∧
      as = if (s.lastInPackId.toNat : Int) < ip.pac.packId.toNat - 1 then
        (List.range (ip.pac.packId.toNat - (s.lastInPackId + 1).toNat)).map fun i =>
          resendRequest (s.lastInPackId + 1 + UInt16.ofNat i)
      else [] := by
    unfold noteId
    rw [if_neg hr]
    by_cases ht : (s.lastInPackId.toNat : Int) < ip.pac.packId.toNat - 1
    · rw [if_pos (show ((s.hear ip).lastInPackId.toNat : Int) < ip.pac.packId.toNat - 1 from ht)]
      refine ⟨_, requestResends_out env _ _ (s.hear ip) (hp ht), fun o ho => ?_, (if_pos ht).symm⟩
      obtain ⟨i, -, rfl⟩ := List.mem_map.1 ho
      rfl
    · rw [if_neg (show ¬((s.hear ip).lastInPackId.toNat : Int) < ip.pac.packId.toNat - 1 from ht)]
      exact ⟨[], (List.append_nil _).symm, fun o ho => (by cases ho), (if_neg ht).symm⟩
  obtain ⟨as, ho, has, he⟩ := hn
  obtain ⟨os, hd, hos⟩ := (tacit_dispatch env ((s.hear ip).noteId env ip) ip).out
  rw [← he, askedFor, handlePacket_eq, hd, ho, List.append_assoc, List.drop_left, List.filter_append]
  have h₁ : as.filter (fun o => o.type = ptResend) = as := List.filter_eq_self.2 fun o hm => by simpa using has o hm
  have h₂ : os.filter (fun o => o.type = ptResend) = [] :=
    List.filter_eq_nil_iff.2 fun o hm => by simpa using hos o hm
  rw [h₁, h₂, List.append_nil]

/-- **What was lost before a packet is asked for** if and only if neither 65535 nor 0 was lost. -/
theorem asks_iff (env : Env) (s : Server) (ip : InPac) {p : Nat} (hr : ¬Resent ip)
    (hlast : s.lastInPackId = UInt16.ofNat p) (hid : ip.pac.packId = UInt16.ofNat ip.seq) (hp : p < ip.seq) (hq : ip.seq ≤ p + 1000)
    (hg : ∀ i < ip.seq - p - 1, env.packet (s.allocs + i) = true) :
    askedFor s (s.handlePacket env ip) = (lostIds p ip.seq).map resendRequest ↔
      0 ∉ lostIds p ip.seq ∧ 65535 ∉ lostIds p ip.seq := by
  obtain ⟨hnil, ht⟩ | ⟨hw, ht, hlen⟩ | ⟨hne, hw, ht⟩ := gap_cases hlast hid hp hq
  · rw [askedFor_handlePacket hr fun h => absurd h ht, if_neg ht, hnil]
    exact iff_of_true rfl ⟨List.not_mem_nil, List.not_mem_nil⟩
  · rw [askedFor_handlePacket hr fun _ => by rw [hlen]; exact hg, if_pos ht, hlen]
    refine iff_of_true ?_ hw
    unfold lostIds
    rw [List.map_map]
    apply List.map_congr_left
    intro i _
    show resendRequest (s.lastInPackId + 1 + UInt16.ofNat i) = resendRequest (UInt16.ofNat (p + 1 + i))
    rw [hlast, UInt16.ofNat_add, UInt16.ofNat_add]
    rfl
  · rw [askedFor_handlePacket hr fun h => absurd h ht, if_neg ht]
    refine iff_of_false (fun he => hne ?_) hw
    exact List.map_eq_nil_iff.1 he.symm

/-! ## Runs -/

/-- How packets arrive that are not sent again: their ids are consecutive, they come in order, and fewer than 1000 in a
row are lost. -/
def InNumber (s : Server) : Event → Prop
  | .packet seq pac => pac.flags &&& resend = 0 → pac.packId = UInt16.ofNat seq ∧
      ∀ p ∈ s.lastHeard, p < seq ∧ seq ≤ p + 1000
  | _ => True

/-- A packet can be had for everything that was lost. -/
def Askable (env : Env) (s : Server) : Event → Prop
  | .packet seq pac => pac.flags &&& resend = 0 →
      ∀ p ∈ s.lastHeard, ∀ i < seq - p - 1, env.packet (s.allocs + i) = true
  | _ => True

/-- What was lost before a packet is asked for, and nothing else. -/
def AsksForLost (env : Env) (s : Server) (e : Event) : Prop :=
  match e with
  | .packet seq pac => pac.flags &&& resend = 0 → ∀ p ∈ s.lastHeard, ∀ s' ∈ step env s e,
      askedFor s s' = (lostIds p seq).map resendRequest
  | _ => True

/-- Neither 65535 nor 0 is among the lost ids. -/
def KeepsRound (s : Server) : Event → Prop
  | .packet seq pac => pac.flags &&& resend = 0 → ∀ p ∈ s.lastHeard, 0 ∉ lostIds p seq ∧ 65535 ∉ lostIds p seq
  | _ => True

instance (s : Server) : (e : Event) → Decidable (InNumber s e)
  | .run _ => .isTrue trivial
  | .wake _ => .isTrue trivial
  | .timer _ => .isTrue trivial
  | .request _ => .isTrue trivial
  | .requestsDone => .isTrue trivial
  | .packet .. => inferInstanceAs (Decidable (_ → _ ∧ ∀ _ ∈ _, _))
  | .packetsDone => .isTrue trivial

instance (env : Env) (s : Server) : (e : Event) → Decidable (Askable env s e)
  | .run _ => .isTrue trivial
  | .wake _ => .isTrue trivial
  | .timer _ => .isTrue trivial
  | .request _ => .isTrue trivial
  | .requestsDone => .isTrue trivial
  | .packet .. => inferInstanceAs (Decidable (_ → ∀ _ ∈ _, ∀ _ < _, _))
  | .packetsDone => .isTrue trivial

instance (s : Server) : (e : Event) → Decidable (KeepsRound s e)
  | .run _ => .isTrue trivial
  | .wake _ => .isTrue trivial
  | .timer _ => .isTrue trivial
  | .request _ => .isTrue trivial
  | .requestsDone => .isTrue trivial
  | .packet .. => inferInstanceAs (Decidable (_ → ∀ _ ∈ _, _))
  | .packetsDone => .isTrue trivial

/-- The id that the server has noted is that of the last packet. -/
def Noted (s : Server) : Prop := ∀ p ∈ s.lastHeard, s.lastInPackId = UInt16.ofNat p

theorem Noted.tacit (h : s.Noted) (ht : Tacit s s') : s'.Noted := by
  intro p hp
  rw [lastHeard, ht.heard] at hp
  rw [ht.last]
  exact h p hp

theorem Noted.step (h : s.Noted) (hi : s.InNumber e) (he : Server.step env s e = some s') : s'.Noted := by
  cases e with
  | packet seq pac =>
    cases he
    intro p hp
    rw [lastHeard_handlePacket] at hp
    rw [last_handlePacket]
    split at hp
    · next hr =>
      rw [if_pos hr]
      exact h p hp
    · next hr =>
      cases hp
      rw [if_neg hr]
      exact (hi (not_not.1 hr)).1
  | _ => exact h.tacit (tacit_step (fun _ _ h => by cases h) he)

/-- **Lost packets are asked for** in every run in which the ids that are lost do not go past 65535, and only in these. -/
theorem lost_asked_for (env : Env) {es : List Event}
    (h : Along (fun s e => InNumber s e ∧ Askable env s e) (step env) start es) :
    Along (AsksForLost env) (step env) start es ↔ Along KeepsRound (step env) start es := by
  apply along_iff Noted _ (fun s e s' hn ha _ he => hn.step ha.1 he) (fun p hp => by cases hp) h
  intro s e hn ⟨hi, ha⟩
  cases e with
  | packet seq pac =>
    refine forall_congr' fun hr => forall_congr' fun p => forall_congr' fun hp => ?_
    have hiff := asks_iff env { s with dequeued := s.dequeued + 1 } ⟨s.dequeued, seq, pac⟩ (not_not.2 hr)
      (hn p hp) (hi hr).1 ((hi hr).2 p hp).1 ((hi hr).2 p hp).2 (ha hr p hp)
    refine Iff.trans ⟨fun hs => hs _ rfl, fun hs s' he => ?_⟩ hiff
    cases he
    exact hs
  | _ => exact Iff.rfl

/-! ### Past 65535 -/

/-- The Pi says hello and sends `n` packets more. -/
def pongs (n : Nat) : List Event := greeting ++ (List.range n).flatMap fun i => pass [] [bare (i + 2) ptPong 0]

/-- A call of `APB_WaitForMessage` up to the packets. -/
def calm : List Event := [.run true, .wake false, .timer false, .requestsDone]

theorem pass_bare (seq : Nat) (type : UInt8) (connId : UInt16) :
    pass [] [bare seq type connId] = calm ++ [.packet seq (bare seq type connId).pac, .packetsDone] := rfl

/-- What the events of such a run are. -/
def Regular (s : Server) (e : Event) : Prop := Enabled s e ∧ InNumber s e ∧ Askable plenty s e

instance (s : Server) (e : Event) : Decidable (Regular s e) := inferInstanceAs (Decidable (_ ∧ _ ∧ _))

/-- The server is connected, in the loop of `APB_Run`, and packet `n` came last. -/
structure Ready (s : Server) (n : Nat) : Prop where
  phase : s.phase = .loop
  state : s.state = .connected
  last : s.lastHeard = some n

theorem Ready.calm {n : Nat} (h : s.Ready n) :
    runs (step plenty) s calm = some { s with phase := .remote } ∧ Along Regular (step plenty) s calm := by
  have hrun : step plenty s (.run true) = some { s with phase := .wait } := by
    unfold step runStep
    rw [h.state]
  constructor
  · rw [Server.calm, runs_cons hrun]
    rfl
  · have hs : s.state ≠ .stopped := by
      rw [h.state]
      decide
    refine (along_cons hrun).2 ⟨⟨⟨h.phase, hs⟩, trivial, trivial⟩, ?_⟩
    refine (along_cons rfl).2 ⟨⟨rfl, trivial, trivial⟩, ?_⟩
    refine (along_cons rfl).2 ⟨⟨⟨rfl, fun he => (by cases he)⟩, trivial, trivial⟩, ?_⟩
    exact (along_cons rfl).2 ⟨⟨rfl, trivial, trivial⟩, trivial⟩

/-- A `PT_PONG` leaves the server where it is. -/
theorem handlePacket_pong (env : Env) (s : Server) (num seq : Nat) :
    (s.handlePacket env ⟨num, seq, (bare seq ptPong 0).pac⟩).state = s.state ∧
      (s.handlePacket env ⟨num, seq, (bare seq ptPong 0).pac⟩).phase = s.phase ∧
      (s.handlePacket env ⟨num, seq, (bare seq ptPong 0).pac⟩).lastHeard = some seq := by
  have hn := steady_noteId env (s.hear ⟨num, seq, (bare seq ptPong 0).pac⟩) ⟨num, seq, (bare seq ptPong 0).pac⟩
  have hr : ¬Resent ⟨num, seq, (bare seq ptPong 0).pac⟩ := by
    show ¬(0 : UInt8) &&& resend ≠ 0
    decide
  exact ⟨hn.state, hn.phase, (lastHeard_handlePacket env s _).trans (if_neg hr)⟩

/-- The next packet. -/
theorem Ready.pass {n q : Nat} (h : s.Ready n) (hn : n < q) (hq : q ≤ n + 1000) :
    Along Regular (step plenty) s (pass [] [bare q ptPong 0]) ∧
      ∃ t, runs (step plenty) s (pass [] [bare q ptPong 0]) = some t ∧ t.Ready q := by
  have hlast : ∀ p ∈ ({ s with phase := .remote } : Server).lastHeard, p < q ∧ q ≤ p + 1000 := by
    intro p hp
    cases h.last.symm.trans hp
    exact ⟨hn, hq⟩
  obtain ⟨h₁, h₂, h₃⟩ := handlePacket_pong plenty { s with phase := .remote, dequeued := s.dequeued + 1 } s.dequeued q
  constructor
  · rw [pass_bare, along_append]
    refine ⟨h.calm.2, fun t ht => ?_⟩
    cases h.calm.1.symm.trans ht
    refine (along_cons rfl).2 ⟨⟨rfl, fun _ => ⟨rfl, hlast⟩, fun _ _ _ _ _ => rfl⟩, ?_⟩
    exact (along_cons rfl).2 ⟨⟨h₂, trivial, trivial⟩, trivial⟩
  · rw [pass_bare, runs_append, h.calm.1]
    exact ⟨_, rfl, rfl, h₁.trans h.state, h₃⟩

theorem ready_pongs (n : Nat) : Along Regular (step plenty) start (pongs n) ∧
    ∃ t, runs (step plenty) start (pongs n) = some t ∧ t.Ready (n + 1) := by
  induction n with
  | zero =>
    refine ⟨by decide +kernel, ?_⟩
    have h : (runs (step plenty) start (pongs 0)).map (fun x => (x.phase, x.state, x.lastHeard)) =
        some (.loop, .connected, some 1) := by
      decide +kernel
    obtain ⟨x, hx, he⟩ := Option.map_eq_some_iff.1 h
    rw [Prod.mk.injEq, Prod.mk.injEq] at he
    exact ⟨x, hx, he.1, he.2.1, he.2.2⟩
  | succ n ih =>
    obtain ⟨ha, t, ht, hr⟩ := ih
    obtain ⟨ha', t', ht', hr'⟩ := hr.pass (Nat.lt_succ_self (n + 1)) (by omega)
    have hsplit : pongs (n + 1) = pongs n ++ Server.pass [] [bare (n + 2) ptPong 0] := by
      unfold pongs
      rw [List.range_succ, List.flatMap_append, List.flatMap_singleton, List.append_assoc]
    rw [hsplit, along_append, runs_append, ht]
    refine ⟨⟨ha, fun u hu => ?_⟩, t', ht', hr'⟩
    cases hu
    exact ha'

/-- 65534 packets arrive, the ids 65535 and 0 are lost, and 1 arrives. -/
def pastTheEnd : List Event := pongs 65533 ++ pass [] [bare 65537 ptPong 0]

theorem wrap_unnoticed : Along Regular (step plenty) start pastTheEnd ∧
    ¬Along (AsksForLost plenty) (step plenty) start pastTheEnd := by
  obtain ⟨ha, t, ht, hr⟩ := ready_pongs 65533
  obtain ⟨ha', -⟩ := hr.pass (q := 65537) (by decide) (by decide)
  unfold pastTheEnd
  rw [along_append]
  refine ⟨⟨ha, fun u hu => ?_⟩, fun hall => ?_⟩
  · cases ht.symm.trans hu
    exact ha'
  · have hpass := (along_append.1 hall).2 t ht
    rw [pass_bare, along_append] at hpass
    have hasked := (hpass.2 _ hr.calm.1).1 rfl 65534 hr.last _ rfl
    have hnoted : t.Noted :=
      runs_inv Noted (fun _ _ _ hn hg he => hn.step hg.2.1 he) (fun p hp => by cases hp) ha ht
    have hresent : (0 : UInt8) &&& resend = 0 := by decide
    have hiff := asks_iff plenty { t with phase := .remote, dequeued := t.dequeued + 1 }
      ⟨t.dequeued, 65537, (bare 65537 ptPong 0).pac⟩ (not_not.2 hresent) (hnoted 65534 hr.last) rfl
      (by decide : 65534 < 65537) (by decide : 65537 ≤ 65534 + 1000) fun _ _ => rfl
    have hzero : (0 : UInt16) ∈ lostIds 65534 65537 := by decide
    exact (hiff.1 hasked).1 hzero

/-- Packets 2 and 3 are lost. -/
theorem lost_asked_for_two :
    Along (AsksForLost plenty) (step plenty) start (greeting ++ pass [] [bare 4 ptPong 0]) :=
  (lost_asked_for plenty (by decide +kernel)).2 (by decide +kernel)

end AmiPiBorg.Server
