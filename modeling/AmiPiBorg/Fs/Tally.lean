import AmiPiBorg.Fs.Steps

/-!
# The lock counts of the volumes

`Tally` is what makes the lock count of every volume right. The actions that get a lock keep it and free nothing
(`Lends`), `FS_FreeLock` of a lock that is allocated keeps it and frees that lock, and so does mounting a volume without
locks.
-/

set_option autoImplicit false

namespace AmiPiBorg.Fs

open ProgLib

variable {s s' s₁ : State} {v p l : Addr} {lock : Option Addr} {res : FsResponse} {m : State.Mounting}

/-- How many locks of a volume are allocated. -/
def State.liveOf (s : State) (v : Addr) : Nat := s.liveLocks.countP fun x => x.2 = v

/-- **The lock counts are right**, and locks are what they seem. -/
structure Tally (s : State) : Prop where
  count : ∀ v ∈ s.volList, (s.vols v).lockCount.toInt = s.liveOf v
  allocated : s.allocatedLocks.Perm (s.freedLocks ++ s.liveLocks)
  magic : ∀ x ∈ s.liveLocks, x.1 ≠ 0 ∧ (s.locks x.1).magic = State.magicOf x.1
  nodup : (s.liveLocks.map Prod.fst).Nodup
  few : s.liveLocks.length ≤ 100
  home : ∀ x ∈ s.liveLocks, x.2 ∈ s.volList

/-- Keys and names do not matter. -/
theorem Tally.congr (h : Tally s) (hl : s'.liveLocks = s.liveLocks) (ha : s'.allocatedLocks = s.allocatedLocks)
    (hf : s'.freedLocks = s.freedLocks) (hv : s'.volList = s.volList)
    (hc : ∀ v, (s'.vols v).lockCount = (s.vols v).lockCount)
    (hm : ∀ x ∈ s.liveLocks, (s'.locks x.1).magic = (s.locks x.1).magic) : Tally s' := by
  refine ⟨fun v hmem => ?_, ?_, fun x hx => ?_, ?_, ?_, fun x hx => ?_⟩
  · unfold State.liveOf
    rw [hc, hl]
    exact h.count v (hv ▸ hmem)
  · rw [ha, hf, hl]
    exact h.allocated
  · rw [hl] at hx
    rw [hm x hx]
    exact h.magic x hx
  · rw [hl]
    exact h.nodup
  · rw [hl]
    exact h.few
  · rw [hv]
    exact h.home x (hl ▸ hx)

theorem Tally.books (h : Tally s) (hb : s'.lockBooks = s.lockBooks) (hv : s'.volList = s.volList) : Tally s' := by
  refine h.congr (congrArg LockBooks.liveLocks hb) (congrArg LockBooks.allocatedLocks hb)
    (congrArg LockBooks.freedLocks hb) hv (fun v => ?_) fun x _ => ?_
  · rw [show s'.vols = s.vols from congrArg LockBooks.vols hb]
  · rw [show s'.locks = s.locks from congrArg LockBooks.locks hb]

/-! ## Getting a lock -/

/-- The counts are right, nothing was freed, and no lock is gone. -/
structure Lends (s s' : State) : Prop where
  tally : Tally s'
  freed : s'.freedLocks = s.freedLocks
  live : s.liveLocks ⊆ s'.liveLocks

theorem toInt_add_one {x : Int16} {n : Nat} (h : x.toInt = n) (hn : n < 100) : (x + 1).toInt = (n + 1 : Nat) := by
  rw [Int16.toInt_add, h]
  exact Int.bmod_eq_of_le (by push_cast; omega) (by push_cast; omega)

theorem toInt_sub_one {x : Int16} {n : Nat} (h : x.toInt = (n + 1 : Nat)) (hn : n < 100) : (x - 1).toInt = n := by
  have hone : ((n + 1 : Nat) : Int) - (1 : Int16).toInt = n := by
    rw [show (1 : Int16).toInt = 1 from rfl]
    omega
  rw [Int16.toInt_sub, h, hone]
  exact Int.bmod_eq_of_le (by push_cast; omega) (by push_cast; omega)

theorem liveOf_le (s : State) (v : Addr) : s.liveOf v ≤ s.liveLocks.length := List.countP_le_length

theorem setVol_lockCount (s : State) (v w : Addr) (vol : Volume) :
    ((s.setVol v vol).vols w).lockCount = if w = v then vol.lockCount else (s.vols w).lockCount := by
  unfold State.setVol
  dsimp only
  split
  case isTrue hw => rw [hw, Function.update_self]
  case isFalse hw => rw [Function.update_of_ne hw]

theorem setLock_magic (s : State) {lk : FsFileLock} (hm : lk.magic = (s.locks l).magic) (a : Addr) :
    ((s.setLock l lk).locks a).magic = (s.locks a).magic := by
  unfold State.setLock
  dsimp only
  by_cases ha : a = l
  · rw [ha, Function.update_self, hm]
  · rw [Function.update_of_ne ha]

/-- **`FS_AllocLock`.** -/
theorem Tally.allocLock (h : Tally s) (hv : v ∈ s.volList) (hf : FreshLock s (some l)) :
    Lends s (s.allocLock v (some l)).2 := by
  obtain ⟨hne, -, hnew, hfew⟩ := hf l rfl
  have hlive : (s.allocLock v (some l)).2.liveLocks = s.liveLocks ++ [(l, v)] := rfl
  refine ⟨⟨fun w hw => ?_, ?_, fun x hx => ?_, ?_, ?_, fun x hx => ?_⟩, rfl, ?_⟩
  · have hcount := h.count w hw
    have hlt := lt_of_le_of_lt (liveOf_le s w) hfew
    have hof : (s.allocLock v (some l)).2.liveOf w = s.liveOf w + if v = w then 1 else 0 := by
      unfold State.liveOf
      rw [hlive, List.countP_append, List.countP_singleton]
      simp only [decide_eq_true_eq]
    rw [hof]
    change ((State.setVol _ _ _).vols w).lockCount.toInt = _
    rw [setVol_lockCount]
    by_cases hwv : w = v
    · rw [if_pos hwv, if_pos hwv.symm, ← hwv]
      exact toInt_add_one hcount hlt
    · rw [if_neg hwv, if_neg (Ne.symm hwv)]
      exact hcount
  · change (s.allocatedLocks ++ [(l, v)]).Perm (s.freedLocks ++ (s.liveLocks ++ [(l, v)]))
    rw [← List.append_assoc]
    exact h.allocated.append_right _
  · change x.1 ≠ 0 ∧ (Function.update s.locks l _ x.1).magic = _
    rw [hlive] at hx
    obtain hx | hx := List.mem_append.1 hx
    · have hxl : x.1 ≠ l := fun he => hnew (he ▸ List.mem_map_of_mem hx)
      rw [Function.update_of_ne hxl]
      exact h.magic x hx
    · rw [List.mem_singleton.1 hx, Function.update_self]
      exact ⟨hne, rfl⟩
  · rw [hlive, List.map_append]
    refine List.nodup_append.2 ⟨h.nodup, List.nodup_singleton _, fun a ha b hb he => hnew ?_⟩
    have hb : b = l := List.mem_singleton.1 hb
    rw [← hb, ← he]
    exact ha
  · rw [hlive, List.length_append]
    exact hfew
  · rw [hlive] at hx
    obtain hx | hx := List.mem_append.1 hx
    · exact h.home x hx
    · rw [List.mem_singleton.1 hx]
      exact hv
  · rw [hlive]
    exact List.subset_append_left _ _

theorem Tally.lends (h : Tally s) : Lends s s := ⟨h, rfl, List.Subset.refl _⟩

/-- What is written into locks and packets afterwards does not matter. -/
theorem Lends.congr (h : Lends s s₁) (hl : s'.liveLocks = s₁.liveLocks) (ha : s'.allocatedLocks = s₁.allocatedLocks)
    (hf : s'.freedLocks = s₁.freedLocks) (hv : s'.volList = s₁.volList) (hc : s'.vols = s₁.vols)
    (hm : ∀ a, (s'.locks a).magic = (s₁.locks a).magic) : Lends s s' := by
  refine ⟨h.tally.congr hl ha hf hv (fun v => ?_) fun x _ => hm x.1, hf.trans h.freed, ?_⟩
  · rw [hc]
  · rw [hl]
    exact h.live

/-- `FS_ActionCopyDir`. -/
theorem Tally.copyDir (h : Tally s) (hv : v ∈ s.volList) (hf : FreshLock s lock) :
    Lends s (s.actionCopyDir v p lock) := by
  unfold State.actionCopyDir
  cases lock with
  | none => exact h.lends.congr rfl rfl rfl rfl rfl fun _ => rfl
  | some l =>
    have ha := h.allocLock hv hf
    dsimp only [State.allocLock]
    split
    all_goals exact ha.congr rfl rfl rfl rfl rfl (setLock_magic (s.allocLock v (some l)).2 rfl)

/-- `FS_ActionLocateObjectReply`. -/
theorem Tally.locateObjectReply (h : Tally s) (hv : v ∈ s.volList) (hf : FreshLock s lock) :
    Lends s (s.actionLocateObjectReply v res p lock) := by
  unfold State.actionLocateObjectReply
  split
  · exact h.lends.congr rfl rfl rfl rfl rfl fun _ => rfl
  · cases lock with
    | none => exact h.lends.congr rfl rfl rfl rfl rfl fun _ => rfl
    | some l => exact (h.allocLock hv hf).congr rfl rfl rfl rfl rfl (setLock_magic _ rfl)

/-- `FS_ActionCreateDirReply`. -/
theorem Tally.createDirReply (h : Tally s) (hv : v ∈ s.volList) (hf : FreshLock s lock)
    (hs : s.actionCreateDirReply v res p lock = some s₁) : Lends s s₁ := by
  have hl : Lends s (s.actionLocateObjectReply v res p lock) := h.locateObjectReply hv hf
  unfold State.actionCreateDirReply at hs
  dsimp only at hs
  split at hs
  · split at hs
    · cases hs
    · cases hs
      exact hl.congr rfl rfl rfl rfl rfl (setLock_magic _ rfl)
  · cases hs
    exact hl

/-! ## Freeing a lock -/

/-- What looks like no lock is not freed. -/
theorem freeLock_other (s : State) (v : Addr) (hl : l = 0 ∨ (s.locks l).magic ≠ State.magicOf l) : s.freeLock v l = s := by
  unfold State.freeLock
  split
  · rfl
  · next hne => exact if_pos (hl.resolve_left hne)

/-- **`FS_FreeLock`** of a lock that is allocated. -/
theorem Tally.freeLock (h : Tally s) (hl : (l, v) ∈ s.liveLocks) :
    Tally (s.freeLock v l) ∧ (s.freeLock v l).freedLocks = s.freedLocks ++ [(l, v)] ∧
      (s.freeLock v l).liveLocks = s.liveLocks.erase (l, v) := by
  obtain ⟨hne, hmagic⟩ := h.magic _ hl
  have he : s.freeLock v l = { s.setVol v { s.vols v with lockCount := (s.vols v).lockCount - 1 } with
      liveLocks := s.liveLocks.erase (l, v), freedLocks := s.freedLocks ++ [(l, v)] } := by
    unfold State.freeLock
    rw [if_neg hne, if_neg (not_not.2 hmagic)]
  have hperm : s.liveLocks.Perm ((l, v) :: s.liveLocks.erase (l, v)) := List.perm_cons_erase hl
  rw [he]
  refine ⟨⟨fun w hw => ?_, ?_, fun x hx => ?_, ?_, ?_, fun x hx => ?_⟩, rfl, rfl⟩
  · have hcount := h.count w hw
    have hof : s.liveOf w = (s.liveLocks.erase (l, v)).countP (fun x => x.2 = w) + if v = w then 1 else 0 := by
      unfold State.liveOf
      rw [hperm.countP_eq, List.countP_cons]
      simp only [decide_eq_true_eq]
    have hfew := le_trans (liveOf_le s w) h.few
    change ((State.setVol _ _ _).vols w).lockCount.toInt = ((s.liveLocks.erase (l, v)).countP _ : Nat)
    rw [setVol_lockCount]
    rw [hof] at hcount hfew
    by_cases hwv : w = v
    · subst hwv
      rw [if_pos rfl] at hcount hfew ⊢
      exact toInt_sub_one hcount hfew
    · rw [if_neg hwv]
      rw [if_neg (Ne.symm hwv)] at hcount
      exact hcount
  · change s.allocatedLocks.Perm (s.freedLocks ++ [(l, v)] ++ s.liveLocks.erase (l, v))
    rw [List.append_assoc]
    exact h.allocated.trans (hperm.append_left _)
  · exact h.magic x (List.mem_of_mem_erase hx)
  · exact h.nodup.sublist (List.erase_sublist.map _)
  · exact le_trans List.length_erase_le h.few
  · exact h.home x (List.mem_of_mem_erase hx)

/-! ## Mounting -/

/-- `FS_UnmountVolume` keeps the counts. -/
theorem Tally.handleUnmountVolume (h : Tally s) (id : UInt16) : Tally (s.handleUnmountVolume id) := by
  unfold State.handleUnmountVolume State.unmountVolume
  split
  · next v _ =>
    split
    · refine h.congr rfl rfl rfl rfl (fun w => ?_) fun _ _ => rfl
      rw [setVol_lockCount]
      split
      · next he => rw [he]
      · rfl
    · exact h
  · exact h

/-- The count of a volume that has no locks is set to nothing. -/
theorem Tally.reset (h : Tally s) {vols : Addr → Volume} {volList : List Addr} (hsub : s.volList ⊆ volList)
    (hc : ∀ w ∈ volList, (vols w).lockCount = (s.vols w).lockCount ∧ w ∈ s.volList ∨
      (vols w).lockCount = 0 ∧ s.liveOf w = 0) : Tally { s with vols := vols, volList := volList } := by
  refine ⟨fun w hw => ?_, h.allocated, h.magic, h.nodup, h.few, fun x hx => hsub (h.home x hx)⟩
  change (vols w).lockCount.toInt = s.liveOf w
  obtain ⟨hl, hm⟩ | ⟨hl, hz⟩ := hc w hw
  · rw [hl]
    exact h.count w hm
  · rw [hl, hz]
    rfl

/-- The volumes that a mount is for have no locks, and a volume is made only when it is mounted. -/
def MountsEmpty (s : State) (id : UInt16) (m : State.Mounting) : Prop :=
  (∀ v ∈ s.volList.find? fun v => (s.vols v).id = id, m.ok = true → s.liveOf v = 0) ∧
    ((s.volList.find? fun v => (s.vols v).id = id) = none → m.rest = true → m.ok = true)

instance (s : State) (id : UInt16) (m : State.Mounting) : Decidable (MountsEmpty s id m) := by
  unfold MountsEmpty; infer_instance

/-- What `FS_MountVolume` answers, and what it does to lock counts. -/
theorem mountVolume_lockCount (s : State) (v : Addr) (m : State.Mounting) :
    ∃ vols, s.mountVolume v m = (m.ok || m.rest, { s with vols := vols }) ∧
      ∀ w, (vols w).lockCount = if w = v ∧ m.ok = true then 0 else (s.vols w).lockCount := by
  unfold State.mountVolume
  dsimp only
  by_cases hok : m.ok = true
  · rw [if_pos hok, hok]
    refine ⟨_, rfl, fun w => ?_⟩
    by_cases hw : w = v
    · rw [if_pos ⟨hw, rfl⟩, hw, Function.update_self]
    · rw [if_neg fun hx => hw hx.1, Function.update_of_ne hw]
      exact (setVol_lockCount s v w _).trans (if_neg hw)
  · rw [if_neg hok, Bool.eq_false_iff.2 hok]
    refine ⟨_, rfl, fun w => ?_⟩
    rw [if_neg fun hx => Bool.false_ne_true hx.2]
    refine (setVol_lockCount s v w _).trans ?_
    split
    · next hw => rw [hw]
    · rfl

/-- `FS_CreateVolume` makes no volume, or one that is mounted. -/
theorem createVolume_lockCount (s : State) (id : UInt16) (hm : m.rest = true → m.ok = true) :
    (∃ vols, s.createVolume id m = (none, { s with vols := vols }) ∧ ∀ w, (vols w).lockCount = (s.vols w).lockCount) ∨
      ∃ v ∈ m.mem, ∃ vols, s.createVolume id m = (some v, { s with vols := vols }) ∧ (vols v).lockCount = 0 ∧
        ∀ w, w ≠ v → (vols w).lockCount = (s.vols w).lockCount := by
  unfold State.createVolume
  cases hmem : m.mem with
  | none => exact .inl ⟨s.vols, rfl, fun _ => rfl⟩
  | some v =>
    have hold : ∀ w, ((s.setVol v { s.vols v with id := id }).vols w).lockCount = (s.vols w).lockCount := by
      intro w
      rw [setVol_lockCount]
      split
      · next hw => rw [hw]
      · rfl
    dsimp only
    by_cases hpd : (m.port && m.device) = true
    · obtain ⟨vols, he, hc⟩ := mountVolume_lockCount (s.setVol v { s.vols v with id := id }) v m
      rw [if_pos hpd, he]
      cases hok : m.ok with
      | false =>
        have hr : m.rest = false := Bool.eq_false_iff.2 fun hr => Bool.false_ne_true (hok.symm.trans (hm hr))
        rw [hr]
        refine .inl ⟨vols, rfl, fun w => ?_⟩
        rw [hc, if_neg fun hx => Bool.false_ne_true (hok.symm.trans hx.2)]
        exact hold w
      | true =>
        refine .inr ⟨v, rfl, vols, rfl, ?_, fun w hw => ?_⟩
        · rw [hc, if_pos ⟨rfl, hok⟩]
        · rw [hc, if_neg fun hx => hw hx.1]
          exact hold w
    · rw [if_neg hpd]
      exact .inl ⟨_, rfl, hold⟩

/-- **`FS_HandleMountVolume`.** -/
theorem Tally.handleMountVolume (h : Tally s) {id : UInt16} (hm : MountsEmpty s id m)
    (hv : ∀ v ∈ m.mem, v ∉ s.volList) :
    Tally (s.handleMountVolume id m) ∧ s.volList ⊆ (s.handleMountVolume id m).volList := by
  unfold State.handleMountVolume
  split
  · next v hfind =>
    obtain ⟨vols, he, hc⟩ := mountVolume_lockCount s v m
    rw [he]
    refine ⟨h.reset (List.Subset.refl _) fun w hw => ?_, List.Subset.refl _⟩
    rw [hc]
    by_cases hx : w = v ∧ m.ok = true
    · rw [if_pos hx, hx.1]
      exact .inr ⟨rfl, hm.1 v hfind hx.2⟩
    · rw [if_neg hx]
      exact .inl ⟨rfl, hw⟩
  · next hnone =>
    obtain ⟨vols, he, hc⟩ | ⟨v, hmem, vols, he, hz, hc⟩ := createVolume_lockCount s id (hm.2 hnone)
    · rw [he]
      exact ⟨h.reset (List.Subset.refl _) fun w hw => .inl ⟨hc w, hw⟩, List.Subset.refl _⟩
    · rw [he]
      refine ⟨h.reset (List.subset_append_left _ _) fun w hw => ?_, List.subset_append_left _ _⟩
      obtain hw | hw := List.mem_append.1 hw
      · exact .inl ⟨hc w fun hx => hv v hmem (hx ▸ hw), hw⟩
      · -- a new volume has no locks
        rw [List.mem_singleton.1 hw]
        refine .inr ⟨hz, List.countP_eq_zero.2 fun x hx hxv => hv v hmem ?_⟩
        rw [← of_decide_eq_true hxv]
        exact h.home x hx

end AmiPiBorg.Fs
