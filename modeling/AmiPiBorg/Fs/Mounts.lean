import AmiPiBorg.Lib.Keyed
import AmiPiBorg.Lib.Ledger
import AmiPiBorg.Lib.Numerals
import AmiPiBorg.Lib.Runs

/-!
# Volumes and the DOS list (`volume.c`, `device.c`)

A volume that the handler offers is a device in the DOS list, and while it is mounted a volume as well. `Mounts` is the
list, the volumes of `fs_Vols` and what they have of the system. A step fails where the source would give back what it
does not have, or free a node that is in the DOS list.

Nothing goes wrong exactly as long as no volume is mounted that is mounted (`mounts_exact`). When that happens, the
second node does not get into the list, it is freed, and `v_Vol` still refers to it.
-/

set_option autoImplicit false

namespace AmiPiBorg.Fs

open ProgLib ProgLib.Numerals

/-- A name in capitals, as AmigaDOS compares names. -/
abbrev DosName := List UInt8

/-- `DLT_DEVICE` and `DLT_VOLUME`. -/
inductive DosType where
  | device
  | volume
  deriving DecidableEq

/-- A node of the DOS list. -/
structure DosEntry where
  num : Nat
  type : DosType
  name : DosName
  /-- `dvi_Task`, `dl_Task`. -/
  task : Nat
  deriving DecidableEq

/-- What tells the nodes of the list apart. -/
def DosEntry.key (e : DosEntry) : DosType × DosName := (e.type, e.name)

/-- What the handler gets from the system. -/
inductive Mounts.Obj where
  | volume (n : Nat)
  | port (n : Nat)
  | memory (n : Nat)
  | entry (n : Nat)
  deriving DecidableEq

/-- The number that the object got when it was made. -/
def Mounts.Obj.num : Mounts.Obj → Nat
  | .volume n | .port n | .memory n | .entry n => n

/-- `struct Volume`, as far as mounting goes. -/
structure Disk where
  obj : Nat
  id : UInt16
  name : DosName
  port : Nat
  devName : Option Nat
  dev : Option Nat
  vol : Option Nat
  mounted : Bool

/-- The text of `v_DevName`. -/
def devText (id : UInt16) : DosName := [65, 80, 66] ++ numeral 10 65 id.toNat

/-- The node that makes the volume a device. -/
def Disk.deviceEntry (d : Disk) (n : Nat) : DosEntry := ⟨n, .device, devText d.id, d.port⟩

/-- The node that makes it a volume. -/
def Disk.volumeEntry (d : Disk) (n : Nat) : DosEntry := ⟨n, .volume, d.name, d.port⟩

structure Mounts where
  dosList : List DosEntry
  /-- `fs_Vols`. -/
  vols : List Disk
  /-- Ghost: what the volumes have of the system. -/
  held : List Mounts.Obj
  /-- Ghost: the next object. -/
  next : Nat
  /-- Ghost: how often `FreeDosEntry` was called with `NULL`. -/
  nulls : Nat

namespace Mounts

/-- Whether the system has what it is asked for; what was in the memory of `struct Volume`; and what a call is worth that
ends without `return`. -/
structure Answers where
  /-- `APB_AllocObject`. -/
  obj : Bool
  /-- `CreatePort`. -/
  port : Bool
  /-- `APB_AllocMem`. -/
  memory : Bool
  /-- `MakeDosEntry` for the device. -/
  device : Bool
  /-- `MakeDosEntry` for the volume. -/
  entry : Bool
  staleDev : Option Nat
  staleVol : Option Nat
  staleMounted : Bool
  rest : Bool

/-- Something is given back. -/
def give (o : Obj) (s : Mounts) : Option Mounts := (Ledger.give o s.held).map fun l => { s with held := l }

/-- `AddDosEntry` wants no other node of the type with this name. -/
def canAdd (s : Mounts) (type : DosType) (name : DosName) : Bool := s.dosList.all fun e => e.key ≠ (type, name)

/-- `MakeDosEntry`. -/
def makeDosEntry (ok : Bool) (s : Mounts) : Option Nat × Mounts :=
  if ok then (some s.next, { s with held := .entry s.next :: s.held, next := s.next + 1 }) else (none, s)

/-- `FS_RemoveDosEntry`. -/
def removeDosEntry (name : DosName) (type : DosType) (s : Mounts) : Mounts :=
  { s with dosList := s.dosList.eraseP fun e => e.key = (type, name) }

/-- `FreeDosEntry`. The node must not be in the DOS list. -/
def freeDosEntry : Option Nat → Mounts → Option Mounts
  | none, s => some { s with nulls := s.nulls + 1 }
  | some n, s => if n ∈ s.dosList.map DosEntry.num then none else s.give (.entry n)

/-- `FS_MountVolume`. -/
def mountVolume (a : Answers) (d : Disk) (s : Mounts) : Option (Bool × Disk × Mounts) :=
  match s.makeDosEntry a.entry with
  | (none, s) => (s.freeDosEntry none).map fun s => (a.rest, { d with vol := none }, s)
  | (some n, s) =>
    if s.canAdd .volume d.name then
      some (true, { d with vol := some n, mounted := true },
        { s with dosList := d.volumeEntry n :: s.dosList })
    else (s.freeDosEntry (some n)).map fun s => (a.rest, { d with vol := some n }, s)

/-- `FS_UnmountVolume`. -/
def unmountVolume (d : Disk) (s : Mounts) : Option (Disk × Mounts) :=
  if d.mounted then
    match d.vol with
    | none => some ({ d with mounted := false }, s)
    | some n => ((s.removeDosEntry d.name .volume).freeDosEntry (some n)).map fun s =>
      ({ d with vol := none, mounted := false }, s)
  else some (d, s)

/-- `FS_CreateDosDevice`. -/
def createDosDevice (a : Answers) (d : Disk) (s : Mounts) : Option (Bool × Disk × Mounts) :=
  if a.memory then
    let m := s.next
    let d := { d with devName := some m }
    let failed (d : Disk) (s : Mounts) : Option (Bool × Disk × Mounts) :=
      -- `v_Vol`, not `v_Dev`, is freed here
      (s.freeDosEntry d.vol).bind fun s => (s.give (.memory m)).map fun s => (a.rest, d, s)
    match makeDosEntry a.device { s with held := .memory m :: s.held, next := m + 1 } with
    | (none, s) => failed { d with dev := none } s
    | (some n, s) =>
      if s.canAdd .device (devText d.id) then
        some (true, { d with dev := some n }, { s with dosList := d.deviceEntry n :: s.dosList })
      else failed { d with dev := some n } s
  else none

/-- `FS_FreeDosDevice`. -/
def freeDosDevice (d : Disk) (s : Mounts) : Option Mounts :=
  (match d.dev with
    | none => some s
    | some n => (s.removeDosEntry (devText d.id) .device).freeDosEntry (some n)).bind fun s =>
  match d.devName with
  | none => some s
  | some n => s.give (.memory n)

/-- `DeletePort`, and the volume goes back into its pool. -/
def deleteVolume (d : Disk) (s : Mounts) : Option Mounts := (s.give (.port d.port)).bind (give (.volume d.obj))

/-- `FS_CreateVolume`. -/
def createVolume (a : Answers) (id : UInt16) (name : DosName) (s : Mounts) : Option (Option Disk × Mounts) :=
  if a.obj then
    let o := s.next
    let s := { s with held := .volume o :: s.held, next := o + 1 }
    if a.port then
      let p := s.next
      let s := { s with held := .port p :: s.held, next := p + 1 }
      let d := { obj := o, id, name, port := p, devName := none, dev := a.staleDev, vol := a.staleVol,
                 mounted := a.staleMounted }
      (s.createDosDevice a d).bind fun (made, d, s) =>
        if made then
          (s.mountVolume a d).bind fun (mounted, d, s) =>
            if mounted then some (some d, s)
            else (s.freeDosDevice d).bind fun s => (s.deleteVolume d).map fun s => (none, s)
        else (s.deleteVolume d).map fun s => (none, s)
    else (s.give (.volume o)).map fun s => (none, s)
  else some (none, s)

/-- `FS_FreeVolume`. -/
def freeVolume (d : Disk) (s : Mounts) : Option Mounts :=
  (match d.vol with
    | none => some s
    | some _ => (s.unmountVolume d).bind fun r => r.2.freeDosEntry r.1.vol).bind fun s =>
  (s.freeDosDevice d).bind fun s => s.deleteVolume d

/-- The loop of `FS_FreeDevice` over the volumes. -/
def freeVolumes : List Disk → Mounts → Option Mounts
  | [], s => some s
  | d :: ds, s => (s.freeVolume d).bind (freeVolumes ds)

/-- What `FS_FreeDevice` does with the volumes. -/
def freeDevice (s : Mounts) : Option Mounts := freeVolumes s.vols { s with vols := [] }

/-- The messages of the remote handler. -/
inductive Event where
  | mount (id : UInt16) (name : DosName) (a : Answers)
  | unmount (id : UInt16)

/-- The volume with this id. -/
def find (s : Mounts) (id : UInt16) : Option Disk := s.vols.find? fun d => d.id = id

/-- `FS_HandleMountVolume` and `FS_HandleUnmountVolume`. -/
def step (s : Mounts) : Event → Option Mounts
  | .mount id name a =>
    match s.find id with
    | some d => (s.mountVolume a d).map fun (_, d, s) => { s with vols := Keyed.put Disk.id s.vols d }
    | none => (s.createVolume a id name).map fun (d, s) => { s with vols := s.vols ++ d.toList }
  | .unmount id =>
    match s.find id with
    | some d => (s.unmountVolume d).map fun (d, s) => { s with vols := Keyed.put Disk.id s.vols d }
    | none => some s

/-- Before the first message, with the nodes of others in the DOS list. -/
def start (others : List DosEntry) (next : Nat) : Mounts :=
  { dosList := others, vols := [], held := [], next := next, nulls := 0 }

end Mounts

/-- What a volume has of the system. -/
def Disk.objs (d : Disk) : List Mounts.Obj :=
  [.volume d.obj, .port d.port] ++ (d.devName.map .memory).toList ++ (d.dev.map .entry).toList ++ (d.vol.map .entry).toList

/-- The nodes of a volume that are in the DOS list. -/
def Disk.entries (d : Disk) : List DosEntry :=
  (d.dev.map d.deviceEntry).toList ++ (d.vol.map d.volumeEntry).toList

namespace Mounts

/-- The DOS list and what is held of the system are as the fields of the volumes say: each is a device with its port, and
those that are mounted are volumes. -/
structure Owned (others : List DosEntry) (ds : List Disk) (s : Mounts) : Prop where
  held : s.held.Perm (ds.flatMap Disk.objs)
  list : s.dosList.Perm (ds.flatMap Disk.entries ++ others)
  fits : ∀ d ∈ ds, d.mounted = d.vol.isSome
  made : ∀ d ∈ ds, d.devName.isSome = true ∧ d.dev.isSome = true
  keys : (s.dosList.map DosEntry.key).Nodup
  nums : (s.dosList.map DosEntry.num).Nodup

/-- There is all that the nodes of a new volume need, or it shows that there is not: `v_Vol` was `NULL` where it is freed,
and the calls that end without `return` are worth `FALSE`. There is memory for the name of the device. -/
def Answers.Orderly (a : Answers) : Prop :=
  a.memory = true ∧ (a.device = true ∧ a.entry = true ∨ a.rest = false ∧ (a.device = false → a.staleVol = none))

instance (a : Answers) : Decidable a.Orderly := inferInstanceAs (Decidable (_ ∧ (_ ∨ _ ∧ (_ → _))))

/-- A new volume has a name of its own. -/
def Legal (others : List DosEntry) (s : Mounts) : Event → Prop
  | .mount id name a => s.find id = none → (∀ d ∈ s.vols, d.name ≠ name) ∧
      (∀ e ∈ others, e.key ≠ (.volume, name) ∧ e.key ≠ (.device, devText id)) ∧
      (a.obj = true → a.port = true → a.Orderly)
  | .unmount _ => True

/-- No volume is mounted that is mounted. -/
def Apart (s : Mounts) : Event → Prop
  | .mount id .. => ∀ d ∈ s.find id, d.mounted = false
  | .unmount _ => True

instance (others : List DosEntry) (s : Mounts) : DecidablePred (Legal others s)
  | .mount .. => inferInstanceAs (Decidable (_ → _ ∧ _ ∧ _))
  | .unmount _ => inferInstanceAs (Decidable True)

instance (s : Mounts) : DecidablePred (Apart s)
  | .mount id .. => inferInstanceAs (Decidable (∀ d ∈ s.find id, d.mounted = false))
  | .unmount _ => inferInstanceAs (Decidable True)

variable {others : List DosEntry} {ds : List Disk} {d d' : Disk} {s s' : Mounts} {a : Answers} {id : UInt16}
  {name : DosName} {n : Nat} {e : DosEntry}

/-! ## Nodes -/

theorem devText_inj {id id' : UInt16} (h : devText id = devText id') : id = id' := by
  have hl : Letter 65 := ⟨by decide, by decide⟩
  have hn := congrArg (readBack 10 65) (List.append_cancel_left h)
  rw [readBack_numeral (by decide) (by decide) hl, readBack_numeral (by decide) (by decide) hl] at hn
  exact UInt16.toNat_inj.1 hn

@[simp] theorem freeDosEntry_none (s : Mounts) : s.freeDosEntry none = some { s with nulls := s.nulls + 1 } := rfl

theorem canAdd_iff {type : DosType} : s.canAdd type name = true ↔ ∀ e ∈ s.dosList, e.key ≠ (type, name) := by
  simp only [canAdd, List.all_eq_true, decide_eq_true_eq]

theorem give_some {o : Obj} {m : List Obj} (h : s.held.Perm (o :: m)) :
    ∃ l, s.give o = some { s with held := l } ∧ l.Perm m := by
  obtain ⟨l, hl, hp⟩ := Ledger.give_perm h
  exact ⟨l, by rw [give, hl, Option.map_some], hp⟩

theorem freeDosEntry_some {m : List Obj} (hn : n ∉ s.dosList.map DosEntry.num) (h : s.held.Perm (.entry n :: m)) :
    ∃ l, s.freeDosEntry (some n) = some { s with held := l } ∧ l.Perm m := by
  obtain ⟨l, hl, hp⟩ := give_some h
  exact ⟨l, by rw [freeDosEntry, if_neg hn, hl], hp⟩

/-- A node that is taken off the DOS list can be freed. -/
theorem removeFree {m : List Obj} {r : List DosEntry} (hk : (s.dosList.map DosEntry.key).Nodup)
    (hu : (s.dosList.map DosEntry.num).Nodup) (hl : s.dosList.Perm (e :: r)) (hh : s.held.Perm (.entry e.num :: m)) :
    ∃ l r', (s.removeDosEntry e.name e.type).freeDosEntry (some e.num) = some { s with dosList := r', held := l } ∧
      l.Perm m ∧ r'.Perm r ∧ (r'.map DosEntry.key).Nodup ∧ (r'.map DosEntry.num).Nodup := by
  have hr : (s.removeDosEntry e.name e.type).dosList.Perm r := Keyed.perm_eraseP hk hl
  have hsub : (s.removeDosEntry e.name e.type).dosList.Sublist s.dosList := List.eraseP_sublist
  have hn : e.num ∉ (s.removeDosEntry e.name e.type).dosList.map DosEntry.num := by
    have hu' := (hl.map DosEntry.num).nodup_iff.1 hu
    rw [(hr.map DosEntry.num).mem_iff]
    exact (List.nodup_cons.1 hu').1
  obtain ⟨l, hf, hp⟩ := freeDosEntry_some (s := s.removeDosEntry e.name e.type) hn hh
  exact ⟨l, _, hf, hp, hr, hk.sublist (hsub.map _), hu.sublist (hsub.map _)⟩

/-! ## Giving everything back -/

/-- The nodes of the device, and what is left of the volume. -/
theorem freeDosDevice_some {m : List Obj} {r : List DosEntry} {k p : Nat} (hk : (s.dosList.map DosEntry.key).Nodup)
    (hu : (s.dosList.map DosEntry.num).Nodup) (hdev : d.dev = some k) (hname : d.devName = some p)
    (hl : s.dosList.Perm (d.deviceEntry k :: r))
    (hh : s.held.Perm (.entry k :: .memory p :: .port d.port :: .volume d.obj :: m)) :
    ∃ l r', (s.freeDosDevice d).bind (deleteVolume d) = some { s with dosList := r', held := l } ∧
      l.Perm m ∧ r'.Perm r ∧ (r'.map DosEntry.key).Nodup ∧ (r'.map DosEntry.num).Nodup := by
  obtain ⟨l₁, r', h₁, hp₁, hr, hk', hu'⟩ := removeFree hk hu hl hh
  have h₁ : (s.removeDosEntry (devText d.id) .device).freeDosEntry (some k) = _ := h₁
  obtain ⟨l₂, h₂, hp₂⟩ := give_some (s := { s with dosList := r', held := l₁ }) hp₁
  obtain ⟨l₃, h₃, hp₃⟩ := give_some (s := { s with dosList := r', held := l₂ }) hp₂
  obtain ⟨l₄, h₄, hp₄⟩ := give_some (s := { s with dosList := r', held := l₃ }) hp₃
  refine ⟨l₄, r', ?_, hp₄, hr, hk', hu'⟩
  simp only [freeDosDevice, deleteVolume, hdev, hname, h₁, h₂, h₃, h₄, Option.bind_some]

/-- **A volume is given back** with its nodes, whether it is mounted or not. -/
theorem Owned.freeVolume (h : Owned others (d :: ds) s) : ∃ s', s.freeVolume d = some s' ∧ Owned others ds s' := by
  obtain ⟨⟨p, hp⟩, ⟨k, hk⟩⟩ := (h.made d List.mem_cons_self).imp Option.isSome_iff_exists.1 Option.isSome_iff_exists.1
  have hfit := h.fits d List.mem_cons_self
  have hfits : ∀ w ∈ ds, w.mounted = w.vol.isSome := fun w hw => h.fits w (List.mem_cons_of_mem _ hw)
  have hmade : ∀ w ∈ ds, w.devName.isSome = true ∧ w.dev.isSome = true := fun w hw => h.made w (List.mem_cons_of_mem _ hw)
  have hheld := h.held
  have hlist := h.list
  simp only [List.flatMap_cons, Disk.objs, Disk.entries, hp, hk, Option.map_some, Option.toList_some] at hheld hlist
  cases hv : d.vol with
  | none =>
    simp only [hv, Option.map_none, Option.toList_none, List.append_nil, List.cons_append, List.nil_append] at hheld hlist
    have hheld' : s.held.Perm (.entry k :: .memory p :: .port d.port :: .volume d.obj :: ds.flatMap Disk.objs) := by
      refine hheld.trans (List.perm_iff_count.2 fun o => ?_)
      simp only [List.count_cons]
      omega
    obtain ⟨l, r, hf, hl, hr, hkeys, hnums⟩ := freeDosDevice_some h.keys h.nums hk hp hlist hheld'
    have hfree : s.freeVolume d = (s.freeDosDevice d).bind (deleteVolume d) := by
      simp only [Mounts.freeVolume, hv, Option.bind_some]
    exact ⟨_, hfree.trans hf, hl, hr, hfits, hmade, hkeys, hnums⟩
  | some n =>
    rw [hv, Option.isSome_some] at hfit
    simp only [hv, Option.map_some, Option.toList_some, List.cons_append, List.nil_append] at hheld hlist
    have hheld' : s.held.Perm
        (.entry n :: .entry k :: .memory p :: .port d.port :: .volume d.obj :: ds.flatMap Disk.objs) := by
      refine hheld.trans (List.perm_iff_count.2 fun o => ?_)
      simp only [List.count_cons]
      omega
    have hlist' := hlist.trans (List.Perm.swap (d.volumeEntry n) (d.deviceEntry k) _)
    obtain ⟨l₁, r₁, h₁, hl₁, hr₁, hk₁, hu₁⟩ := removeFree h.keys h.nums hlist' hheld'
    have h₁ : (s.removeDosEntry d.name .volume).freeDosEntry (some n) = _ := h₁
    obtain ⟨l, r, hf, hl, hr, hkeys, hnums⟩ := freeDosDevice_some
      (s := { s with dosList := r₁, held := l₁, nulls := s.nulls + 1 }) hk₁ hu₁ hk hp hr₁ hl₁
    have hfree : s.freeVolume d =
        (freeDosDevice d { s with dosList := r₁, held := l₁, nulls := s.nulls + 1 }).bind (deleteVolume d) := by
      simp only [Mounts.freeVolume, hv, unmountVolume, hfit, if_true, h₁, Option.map_some, Option.bind_some]
      rw [freeDosEntry_none, Option.bind_some]
    exact ⟨_, hfree.trans hf, hl, hr, hfits, hmade, hkeys, hnums⟩

/-- **All volumes are given back.** -/
theorem Owned.freeVolumes (h : Owned others ds s) :
    ∃ s', Mounts.freeVolumes ds s = some s' ∧ s'.held = [] ∧ s'.dosList.Perm others := by
  induction ds generalizing s with
  | nil => exact ⟨s, rfl, h.held.eq_nil, h.list⟩
  | cons d ds ih =>
    obtain ⟨s₁, h₁, ho⟩ := h.freeVolume
    obtain ⟨s', h', hend⟩ := ih ho
    exact ⟨s', by rw [Mounts.freeVolumes, h₁, Option.bind_some, h'], hend⟩

/-! ## Messages, while nothing has gone wrong -/

/-- The objects have been numbered, and the volumes are told apart by their ids and by their names. -/
structure Good (others : List DosEntry) (s : Mounts) : Prop extends Owned others s.vols s where
  distinct : s.held.Nodup
  held_lt : ∀ o ∈ s.held, o.num < s.next
  list_lt : ∀ e ∈ s.dosList, e.num < s.next
  ids : (s.vols.map Disk.id).Nodup
  names : (s.vols.map Disk.name).Nodup
  foreign : ∀ d ∈ s.vols, ∀ e ∈ others, e.key ≠ (.volume, d.name)

theorem find_some (h : s.find id = some d) : d ∈ s.vols ∧ d.id = id :=
  ⟨List.mem_of_find?_eq_some h, by simpa using List.find?_some h⟩

theorem find_none (h : s.find id = none) : ∀ d ∈ s.vols, d.id ≠ id := by simpa [find] using h

/-- A node of the DOS list is the device of a volume, the volume of one that is mounted, or one of others. -/
theorem Owned.entry_cases (h : Owned others ds s) (he : e ∈ s.dosList) :
    (∃ w ∈ ds, e.key = (.device, devText w.id)) ∨ (∃ w ∈ ds, w.vol = some e.num ∧ e.key = (.volume, w.name)) ∨
      e ∈ others := by
  rcases List.mem_append.1 (h.list.mem_iff.1 he) with he | he
  · obtain ⟨w, hw, he⟩ := List.mem_flatMap.1 he
    rcases List.mem_append.1 he with he | he
    · simp only [Option.mem_toList, Option.map_eq_some_iff] at he
      obtain ⟨n, -, rfl⟩ := he
      exact .inl ⟨w, hw, rfl⟩
    · simp only [Option.mem_toList, Option.map_eq_some_iff] at he
      obtain ⟨n, hn, rfl⟩ := he
      exact .inr (.inl ⟨w, hw, hn, rfl⟩)
  · exact .inr (.inr he)

/-- The node of a volume is the one that its field refers to. -/
theorem Good.volume_mem (h : Good others s) (he : e ∈ s.dosList) (hd : d ∈ s.vols) (hk : e.key = (.volume, d.name)) :
    d.vol = some e.num := by
  rcases h.entry_cases he with ⟨w, -, hw⟩ | ⟨w, hw, hn, hkw⟩ | ho
  · exact absurd (congrArg Prod.fst (hk.symm.trans hw)) nofun
  · rw [← List.inj_on_of_nodup_map h.names hw hd (congrArg Prod.snd (hkw.symm.trans hk))]
    exact hn
  · exact absurd hk (h.foreign d hd e ho)

theorem Owned.device_free (h : Owned others ds s) (hid : ∀ d ∈ ds, d.id ≠ id)
    (ho : ∀ e ∈ others, e.key ≠ (.device, devText id)) : ∀ e ∈ s.dosList, e.key ≠ (.device, devText id) := by
  intro e he hk
  rcases h.entry_cases he with ⟨w, hw, hkw⟩ | ⟨w, -, -, hkw⟩ | he
  · exact hid w hw (devText_inj (congrArg Prod.snd (hkw.symm.trans hk)))
  · exact absurd (congrArg Prod.fst (hkw.symm.trans hk)) nofun
  · exact ho e he hk

theorem Owned.volume_free (h : Owned others ds s) (hname : ∀ d ∈ ds, d.name ≠ name)
    (ho : ∀ e ∈ others, e.key ≠ (.volume, name)) : ∀ e ∈ s.dosList, e.key ≠ (.volume, name) := by
  intro e he hk
  rcases h.entry_cases he with ⟨w, -, hkw⟩ | ⟨w, hw, -, hkw⟩ | he
  · exact absurd (congrArg Prod.fst (hkw.symm.trans hk)) nofun
  · exact hname w hw (congrArg Prod.snd (hkw.symm.trans hk))
  · exact ho e he hk

/-- A volume with another node, or none. -/
def withVol (d : Disk) (v : Option Nat) : Disk := { d with vol := v, mounted := v.isSome }

@[simp] theorem withVol_id (d : Disk) (v : Option Nat) : (withVol d v).id = d.id := rfl

@[simp] theorem withVol_name (d : Disk) (v : Option Nat) : (withVol d v).name = d.name := rfl

theorem objs_withVol (d : Disk) (n : Nat) : (withVol d (some n)).objs.Perm (.entry n :: (withVol d none).objs) := by
  simp only [Disk.objs, withVol, Option.map_none, Option.toList_none, List.append_nil, Option.map_some, Option.toList_some]
  exact List.perm_append_singleton ..

theorem entries_withVol (d : Disk) (n : Nat) :
    (withVol d (some n)).entries.Perm (d.volumeEntry n :: (withVol d none).entries) := by
  simp only [Disk.entries, withVol, Option.map_none, Option.toList_none, List.append_nil, Option.map_some,
    Option.toList_some]
  exact List.perm_append_singleton ..

/-- Fields that fit. -/
theorem Owned.withVol_eq (h : Owned others ds s) (hd : d ∈ ds) : withVol d d.vol = d := by
  unfold withVol
  rw [← h.fits d hd]

/-- A volume is written back. -/
theorem Good.put (h : Good others s) (hd : d ∈ s.vols) {v : Option Nat} {l : List Obj} {r : List DosEntry} {next nulls : Nat}
    (hl : l.Perm ((Keyed.put Disk.id s.vols (withVol d v)).flatMap Disk.objs))
    (hr : r.Perm ((Keyed.put Disk.id s.vols (withVol d v)).flatMap Disk.entries ++ others))
    (hk : (r.map DosEntry.key).Nodup) (hu : (r.map DosEntry.num).Nodup) (hn : l.Nodup) (hl' : ∀ o ∈ l, o.num < next)
    (hr' : ∀ e ∈ r, e.num < next) :
    Good others { dosList := r, vols := Keyed.put Disk.id s.vols (withVol d v), held := l, next := next, nulls := nulls } := by
  have hmem : ∀ P : Disk → Prop, (∀ w ∈ s.vols, P w) → P (withVol d v) →
      ∀ w ∈ Keyed.put Disk.id s.vols (withVol d v), P w := by
    intro P hP hd' w hw
    rcases Keyed.mem_put hw with rfl | ⟨hw, -⟩
    · exact hd'
    · exact hP w hw
  have hnames : (Keyed.put Disk.id s.vols (withVol d v)).map Disk.name = s.vols.map Disk.name :=
    Keyed.map_put_of_mem Disk.name h.ids hd (withVol_id d v) (withVol_name d v)
  refine ⟨⟨hl, hr, ?_, ?_, hk, hu⟩, hn, hl', hr', ?_, ?_, ?_⟩
  · exact hmem _ h.fits rfl
  · exact hmem _ h.made (h.made d hd)
  · rw [Keyed.map_key_put]
    exact h.ids
  · rw [hnames]
    exact h.names
  · exact hmem (fun w => ∀ e ∈ others, e.key ≠ (.volume, w.name)) h.foreign (h.foreign d hd)

/-- **Mounting a volume again** that is not mounted. -/
theorem Good.mountVolume (h : Good others s) (hd : d ∈ s.vols) (hm : d.mounted = false) (a : Answers) :
    ∃ r, s.mountVolume a d = some r ∧ Good others { r.2.2 with vols := Keyed.put Disk.id r.2.2.vols r.2.1 } := by
  have hv : d.vol = none := Option.isSome_eq_false_iff.1 ((h.fits d hd).symm.trans hm) |> Option.isNone_iff_eq_none.1
  have hd' : withVol d none = d := hv ▸ h.withVol_eq hd
  cases ha : a.entry with
  | false =>
    have hsame : { d with vol := none } = d := by rw [← hv]
    refine ⟨(a.rest, d, { s with nulls := s.nulls + 1 }), ?_, ?_⟩
    · simp only [Mounts.mountVolume, makeDosEntry, ha, Bool.false_eq_true, if_false, freeDosEntry_none, Option.map_some,
        hsame]
    simp only [Keyed.put_of_mem h.ids hd]
    exact ⟨⟨h.held, h.list, h.fits, h.made, h.keys, h.nums⟩, h.distinct, h.held_lt, h.list_lt, h.ids, h.names, h.foreign⟩
  | true =>
    have hcan : ∀ e ∈ s.dosList, e.key ≠ (.volume, d.name) := fun e he hk => by
      have := h.volume_mem he hd hk
      rw [hv] at this
      cases this
    have hadd : canAdd { s with held := .entry s.next :: s.held, next := s.next + 1 } .volume d.name = true :=
      canAdd_iff.2 hcan
    refine ⟨_, by simp only [Mounts.mountVolume, makeDosEntry, ha, if_true, hadd]; rfl, ?_⟩
    have hobjs := objs_withVol d s.next
    have hentries := entries_withVol d s.next
    rw [hd'] at hobjs hentries
    refine h.put (v := some s.next) hd ?_ ?_ ?_ ?_ ?_ ?_ ?_
    · exact (h.held.cons _).trans (Keyed.perm_put_cons h.ids hd (withVol_id d _) hobjs).symm
    · exact (h.list.cons _).trans ((Keyed.perm_put_cons h.ids hd (withVol_id d _) hentries).symm.append_right others)
    · refine List.nodup_cons.2 ⟨fun hk => ?_, h.keys⟩
      obtain ⟨e, he, hk⟩ := List.mem_map.1 hk
      exact hcan e he hk
    · refine List.nodup_cons.2 ⟨fun hn => ?_, h.nums⟩
      obtain ⟨e, he, hn⟩ := List.mem_map.1 hn
      exact absurd (h.list_lt e he) (by rw [hn]; exact Nat.lt_irrefl _)
    · exact List.nodup_cons.2 ⟨fun hm => absurd (h.held_lt _ hm) (Nat.lt_irrefl _), h.distinct⟩
    · intro o ho
      rcases List.mem_cons.1 ho with rfl | ho
      · exact Nat.lt_succ_self _
      · exact Nat.lt_succ_of_lt (h.held_lt o ho)
    · intro e he
      rcases List.mem_cons.1 he with rfl | he
      · exact Nat.lt_succ_self _
      · exact Nat.lt_succ_of_lt (h.list_lt e he)

/-- **Unmounting a volume.** -/
theorem Good.unmountVolume (h : Good others s) (hd : d ∈ s.vols) :
    ∃ r, s.unmountVolume d = some r ∧ Good others { r.2 with vols := Keyed.put Disk.id r.2.vols r.1 } := by
  cases hm : d.mounted with
  | false =>
    refine ⟨(d, s), by simp [Mounts.unmountVolume, hm], ?_⟩
    simp only [Keyed.put_of_mem h.ids hd]
    exact h
  | true =>
    obtain ⟨n, hv⟩ := Option.isSome_iff_exists.1 ((h.fits d hd).symm.trans hm)
    have hd' : withVol d (some n) = d := hv ▸ h.withVol_eq hd
    have hobjs := objs_withVol d n
    have hentries := entries_withVol d n
    rw [hd'] at hobjs hentries
    have hheld := h.held.trans (Keyed.perm_cons_put h.ids hd (withVol_id d none) hobjs)
    have hlist := h.list.trans ((Keyed.perm_cons_put h.ids hd (withVol_id d none) hentries).append_right others)
    obtain ⟨l, r, hf, hl, hr, hk, hu⟩ := removeFree h.keys h.nums hlist hheld
    have hf : (s.removeDosEntry d.name .volume).freeDosEntry (some n) = _ := hf
    refine ⟨(withVol d none, { s with dosList := r, held := l }), ?_, ?_⟩
    · simp only [Mounts.unmountVolume, hm, if_true, hv, hf, Option.map_some]
      rfl
    refine h.put (v := none) hd hl hr hk hu ?_ ?_ ?_
    · exact (List.nodup_cons.1 ((hheld.nodup_iff).1 h.distinct)).2 |> hl.nodup_iff.2
    · exact fun o ho => h.held_lt o (hheld.mem_iff.2 (List.mem_cons_of_mem _ (hl.mem_iff.1 ho)))
    · exact fun e he => h.list_lt e (hlist.mem_iff.2 (List.mem_cons_of_mem _ (hr.mem_iff.1 he)))

/-- A later number is free as well. -/
theorem Good.skip (h : Good others s) {next nulls : Nat} (hn : s.next ≤ next) :
    Good others { s with next := next, nulls := nulls } :=
  ⟨⟨h.held, h.list, h.fits, h.made, h.keys, h.nums⟩, h.distinct, fun o ho => Nat.lt_of_lt_of_le (h.held_lt o ho) hn,
    fun e he => Nat.lt_of_lt_of_le (h.list_lt e he) hn, h.ids, h.names, h.foreign⟩

/-- The volume that a message makes when the system has everything. -/
def newDisk (n : Nat) (id : UInt16) (name : DosName) : Disk :=
  { obj := n, id, name, port := n + 1, devName := some (n + 2), dev := some (n + 3), vol := some (n + 4), mounted := true }

/-- The state with a new volume. -/
def withNew (s : Mounts) (id : UInt16) (name : DosName) : Mounts :=
  let d := newDisk s.next id name
  { s with
    dosList := d.volumeEntry (s.next + 4) :: d.deviceEntry (s.next + 3) :: s.dosList
    held := .entry (s.next + 4) :: .entry (s.next + 3) :: .memory (s.next + 2) :: .port (s.next + 1) ::
      .volume s.next :: s.held
    next := s.next + 5 }

/-- What was taken last is given back. -/
@[simp] theorem give_last (o : Obj) (r : List DosEntry) (v : List Disk) (l : List Obj) (next nulls : Nat) :
    give o ⟨r, v, o :: l, next, nulls⟩ = some ⟨r, v, l, next, nulls⟩ := by
  simp only [give, Ledger.give_cons, Option.map_some]

/-- There is no node for the device. -/
theorem createVolume_noDevice (ho : a.obj = true) (hp : a.port = true) (hm : a.memory = true) (hd : a.device = false)
    (hr : a.rest = false) (hv : a.staleVol = none) :
    s.createVolume a id name = some (none, { s with next := s.next + 3, nulls := s.nulls + 1 }) := by
  simp [createVolume, createDosDevice, makeDosEntry, deleteVolume, ho, hp, hm, hd, hr, hv]

/-- There is none for the volume, and the device goes again. -/
theorem createVolume_noVolume (ho : a.obj = true) (hp : a.port = true) (hm : a.memory = true) (hd : a.device = true)
    (he : a.entry = false) (hr : a.rest = false) (hdev : ∀ e ∈ s.dosList, e.key ≠ (.device, devText id))
    (hnum : s.next + 3 ∉ s.dosList.map DosEntry.num) :
    s.createVolume a id name = some (none, { s with next := s.next + 4, nulls := s.nulls + 1 }) := by
  have hcan : ∀ (held : List Obj) (next : Nat), canAdd { s with held := held, next := next } .device (devText id) = true :=
    fun _ _ => canAdd_iff.2 hdev
  have hremove : ∀ (d : Disk), d.id = id → ∀ (held : List Obj) (m next nulls : Nat),
      removeDosEntry (devText id) .device ⟨d.deviceEntry m :: s.dosList, s.vols, held, next, nulls⟩ =
        ⟨s.dosList, s.vols, held, next, nulls⟩ := by
    rintro d rfl held m next nulls
    simp [removeDosEntry, DosEntry.key, Disk.deviceEntry]
  have hfree : ∀ (held : List Obj) (next nulls : Nat),
      freeDosEntry (some (s.next + 1 + 1 + 1)) ⟨s.dosList, s.vols, .entry (s.next + 1 + 1 + 1) :: held, next, nulls⟩ =
        some ⟨s.dosList, s.vols, held, next, nulls⟩ := by
    intro held next nulls
    simp [freeDosEntry, hnum]
  simp [createVolume, createDosDevice, Mounts.mountVolume, makeDosEntry, freeDosDevice, deleteVolume, ho, hp, hm, hd, he, hr,
    hcan, hremove, hfree]

theorem createVolume_new (ho : a.obj = true) (hp : a.port = true) (hm : a.memory = true) (hd : a.device = true)
    (he : a.entry = true) (hdev : ∀ e ∈ s.dosList, e.key ≠ (.device, devText id))
    (hvol : ∀ e ∈ s.dosList, e.key ≠ (.volume, name)) :
    s.createVolume a id name = some (some (newDisk s.next id name), s.withNew id name) := by
  have hcan : ∀ (held : List Obj) (next : Nat), canAdd { s with held := held, next := next } .device (devText id) = true :=
    fun _ _ => canAdd_iff.2 hdev
  have hcan' : ∀ (held : List Obj) (next m : Nat) (d : Disk), canAdd { s with
      dosList := d.deviceEntry m :: s.dosList, held := held, next := next } .volume name = true := by
    refine fun held next m d => canAdd_iff.2 fun e he hk => ?_
    rcases List.mem_cons.1 he with rfl | he
    · exact absurd (congrArg Prod.fst hk) nofun
    · exact hvol e he hk
  simp only [createVolume, createDosDevice, Mounts.mountVolume, makeDosEntry, ho, hp, hm, hd, he, if_true, hcan, hcan',
    Option.bind_some]
  rfl

theorem Good.withNew (h : Good others s) (hid : ∀ d ∈ s.vols, d.id ≠ id) (hname : ∀ d ∈ s.vols, d.name ≠ name)
    (ho : ∀ e ∈ others, e.key ≠ (.volume, name) ∧ e.key ≠ (.device, devText id)) :
    Good others { s.withNew id name with vols := s.vols ++ [newDisk s.next id name] } := by
  have hdev := h.device_free hid fun e he => (ho e he).2
  have hvol := h.volume_free hname fun e he => (ho e he).1
  have hall : ∀ P : Disk → Prop, (∀ d ∈ s.vols, P d) → P (newDisk s.next id name) →
      ∀ d ∈ s.vols ++ [newDisk s.next id name], P d := by
    intro P hP hn d hd
    rcases List.mem_append.1 hd with hd | hd
    · exact hP d hd
    · rwa [List.mem_singleton.1 hd]
  have hlist : ∀ e ∈ s.dosList, e.num ≠ s.next + 3 ∧ e.num ≠ s.next + 4 := fun e he => by
    have := h.list_lt e he
    omega
  have hheld : ∀ o ∈ s.held, o.num < s.next := h.held_lt
  refine ⟨⟨?_, ?_, hall _ h.fits rfl, hall _ h.made ⟨rfl, rfl⟩, ?_, ?_⟩, ?_, ?_, ?_, ?_, ?_,
    hall (fun d => ∀ e ∈ others, e.key ≠ (.volume, d.name)) h.foreign fun e he => (ho e he).1⟩
  · refine List.perm_iff_count.2 fun o => ?_
    have := h.held.count_eq o
    simp only [Mounts.withNew, newDisk, Disk.objs, List.flatMap_append, List.flatMap_singleton, List.count_append,
      List.count_cons, Option.map_some, Option.toList_some, List.count_nil] at this ⊢
    omega
  · refine List.perm_iff_count.2 fun e => ?_
    have := h.list.count_eq e
    simp only [Mounts.withNew, newDisk, Disk.entries, List.flatMap_append, List.flatMap_singleton, List.count_append,
      List.count_cons, Option.map_some, Option.toList_some, List.count_nil] at this ⊢
    omega
  · simp only [Mounts.withNew, List.map_cons, List.nodup_cons, List.mem_cons, List.mem_map, not_or, not_exists, not_and]
    exact ⟨⟨fun hk => absurd (congrArg Prod.fst hk) nofun, fun e he hk => hvol e he hk⟩, fun e he hk => hdev e he hk, h.keys⟩
  · simp only [Mounts.withNew, List.map_cons, List.nodup_cons, List.mem_cons, List.mem_map, not_or, not_exists, not_and]
    exact ⟨⟨fun hk => absurd hk (Nat.succ_ne_self _), fun e he hk => (hlist e he).2 hk⟩, fun e he hk => (hlist e he).1 hk,
      h.nums⟩
  · have hnew : ∀ o : Obj, s.next ≤ o.num → o ∉ s.held := fun o ho hm => absurd (hheld o hm) (Nat.not_lt.2 ho)
    simp [Mounts.withNew, h.distinct, hnew (.entry (s.next + 4)) (Nat.le_add_right ..),
      hnew (.entry (s.next + 3)) (Nat.le_add_right ..), hnew (.memory (s.next + 2)) (Nat.le_add_right ..),
      hnew (.port (s.next + 1)) (Nat.le_add_right ..), hnew (.volume s.next) (Nat.le_refl _)]
  · intro o ho
    simp only [Mounts.withNew, List.mem_cons] at ho ⊢
    rcases ho with rfl | rfl | rfl | rfl | rfl | ho
    iterate 5 simp [Obj.num]
    exact Nat.lt_of_lt_of_le (hheld o ho) (Nat.le_add_right ..)
  · intro e he
    simp only [Mounts.withNew, List.mem_cons] at he ⊢
    rcases he with rfl | rfl | he
    · exact Nat.lt_succ_self _
    · exact Nat.lt_succ_of_lt (Nat.lt_succ_self _)
    · exact Nat.lt_of_lt_of_le (h.list_lt e he) (Nat.le_add_right ..)
  · have hout : id ∉ s.vols.map Disk.id := fun hm => by
      obtain ⟨d, hd, hi⟩ := List.mem_map.1 hm
      exact hid d hd hi
    have hnodup := List.Nodup.append h.ids (List.nodup_singleton id) (List.disjoint_singleton.2 hout)
    rwa [List.map_append]
  · have hout : name ∉ s.vols.map Disk.name := fun hm => by
      obtain ⟨d, hd, hi⟩ := List.mem_map.1 hm
      exact hname d hd hi
    have hnodup := List.Nodup.append h.names (List.nodup_singleton name) (List.disjoint_singleton.2 hout)
    rwa [List.map_append]

/-- **What a message does** as long as no volume is mounted twice. -/
theorem Good.step (h : Good others s) {ev : Event} (hl : Legal others s ev) (ha : Apart s ev) :
    ∃ s', s.step ev = some s' ∧ Good others s' := by
  cases ev with
  | mount id name a =>
    cases hf : s.find id with
    | some d =>
      obtain ⟨r, hr, hg⟩ := h.mountVolume (find_some hf).1 (ha d hf) a
      exact ⟨_, by simp only [Mounts.step, hf, hr, Option.map_some], hg⟩
    | none =>
      obtain ⟨hname, hothers, hall⟩ := hl hf
      cases ho : a.obj with
      | false =>
        refine ⟨s, by simp [Mounts.step, hf, createVolume, ho], h⟩
      | true =>
        cases hp : a.port with
        | false =>
          refine ⟨{ s with next := s.next + 1 }, ?_, h.skip (Nat.le_succ _)⟩
          simp [Mounts.step, hf, createVolume, ho, hp]
        | true =>
          obtain ⟨hm, horder⟩ := hall ho hp
          have hdev := h.device_free (find_none hf) fun e he => (hothers e he).2
          have hvol := h.volume_free hname fun e he => (hothers e he).1
          -- what else there is
          cases hd : a.device with
          | false =>
            have hfail := horder.resolve_left fun hall => Bool.false_ne_true (hd.symm.trans hall.1)
            refine ⟨{ s with next := s.next + 3, nulls := s.nulls + 1 }, ?_, h.skip (Nat.le_add_right ..)⟩
            simp [Mounts.step, hf, createVolume_noDevice ho hp hm hd hfail.1 (hfail.2 hd)]
          | true =>
            cases he : a.entry with
            | false =>
              have hfail := horder.resolve_left fun hall => Bool.false_ne_true (he.symm.trans hall.2)
              have hnum : s.next + 3 ∉ s.dosList.map DosEntry.num := fun hm => by
                obtain ⟨e, he, hn⟩ := List.mem_map.1 hm
                have := h.list_lt e he
                omega
              refine ⟨{ s with next := s.next + 4, nulls := s.nulls + 1 }, ?_, h.skip (Nat.le_add_right ..)⟩
              simp [Mounts.step, hf, createVolume_noVolume ho hp hm hd he hfail.1 hdev hnum]
            | true =>
              refine ⟨_, ?_, h.withNew (find_none hf) hname hothers⟩
              simp only [Mounts.step, hf, createVolume_new ho hp hm hd he hdev hvol, Option.map_some]
              rfl
  | unmount id =>
    cases hf : s.find id with
    | some d =>
      obtain ⟨r, hr, hg⟩ := h.unmountVolume (find_some hf).1
      exact ⟨_, by simp only [Mounts.step, hf, hr, Option.map_some], hg⟩
    | none => exact ⟨s, by simp only [Mounts.step, hf], h⟩

/-! ## Once a volume has been mounted twice -/

/-- A node for a volume of this name is in the DOS list. -/
def Left (name : DosName) (s : Mounts) : Prop := ∃ e ∈ s.dosList, e.key = (.volume, name) ∧ .entry e.num ∈ s.held

/-- It is, and `v_Vol` does not refer to it, but to a node that was freed, or to none. -/
structure Lost (d : Disk) (s : Mounts) : Prop where
  left : Left d.name s
  freed : ∀ n, d.vol = some n → n < s.next ∧ .entry n ∉ s.held

/-- The nodes for volumes of this name are left alone, and numbers are not used twice. -/
structure Spares (name : DosName) (s s' : Mounts) : Prop where
  vols : s'.vols = s.vols
  kept : ∀ e ∈ s.dosList, e.key = (.volume, name) → .entry e.num ∈ s.held → e ∈ s'.dosList ∧ .entry e.num ∈ s'.held
  old : ∀ n < s.next, .entry n ∈ s'.held → .entry n ∈ s.held
  next : s.next ≤ s'.next
  numbered : (∀ o ∈ s.held, o.num < s.next) → ∀ o ∈ s'.held, o.num < s'.next

theorem Spares.refl (name : DosName) (s : Mounts) : Spares name s s :=
  ⟨rfl, fun _ he _ hh => ⟨he, hh⟩, fun _ _ h => h, Nat.le_refl _, fun h => h⟩

theorem Spares.trans {s'' : Mounts} (h : Spares name s s') (h' : Spares name s' s'') : Spares name s s'' := by
  refine ⟨h'.vols.trans h.vols, fun e he hk hh => ?_, fun n hn hm => ?_, h.next.trans h'.next,
    fun hlt => h'.numbered (h.numbered hlt)⟩
  · obtain ⟨he', hh'⟩ := h.kept e he hk hh
    exact h'.kept e he' hk hh'
  · exact h.old n hn (h'.old n (Nat.lt_of_lt_of_le hn h.next) hm)

theorem Left.spared (h : Left name s) (hs : Spares name s s') : Left name s' := by
  obtain ⟨e, he, hk, hh⟩ := h
  obtain ⟨he', hh'⟩ := hs.kept e he hk hh
  exact ⟨e, he', hk, hh'⟩

theorem Lost.spared (h : Lost d s) (hs : Spares d.name s s') : Lost d s' := by
  refine ⟨h.left.spared hs, fun n hn => ?_⟩
  obtain ⟨hlt, hf⟩ := h.freed n hn
  exact ⟨Nat.lt_of_lt_of_le hlt hs.next, fun hm => hf (hs.old n hlt hm)⟩

theorem spares_take (name : DosName) {o : Obj} (ho : o.num = s.next) :
    Spares name s { s with held := o :: s.held, next := s.next + 1 } := by
  refine ⟨rfl, fun e he _ hh => ⟨he, List.mem_cons_of_mem _ hh⟩, fun n hn hm => ?_, Nat.le_succ _, fun hlt o' ho' => ?_⟩
  · rcases List.mem_cons.1 hm with rfl | hm
    · exact absurd ho (Nat.ne_of_lt hn)
    · exact hm
  · rcases List.mem_cons.1 ho' with rfl | ho'
    · exact ho ▸ Nat.lt_succ_self _
    · exact Nat.lt_succ_of_lt (hlt o' ho')

theorem spares_give {o : Obj} (ho : ∀ e ∈ s.dosList, o ≠ .entry e.num) (h : s.give o = some s') : Spares name s s' := by
  obtain ⟨l, hl, rfl⟩ := Option.map_eq_some_iff.1 h
  obtain rfl : s.held.erase o = l := by
    unfold Ledger.give at hl
    split at hl
    · exact Option.some.inj hl
    · cases hl
  exact ⟨rfl, fun e he _ hh => ⟨he, (List.mem_erase_of_ne (ho e he).symm).2 hh⟩, fun n _ hm => List.mem_of_mem_erase hm,
    Nat.le_refl _, fun hlt o' ho' => hlt o' (List.mem_of_mem_erase ho')⟩

theorem spares_freeDosEntry {v : Option Nat} (h : s.freeDosEntry v = some s') : Spares name s s' := by
  cases v with
  | none =>
    cases h
    exact ⟨rfl, fun e he _ hh => ⟨he, hh⟩, fun _ _ h => h, Nat.le_refl _, fun h => h⟩
  | some n =>
    simp only [freeDosEntry] at h
    split at h
    · cases h
    · next hn =>
      exact spares_give (fun e he hk => hn (List.mem_map.2 ⟨e, he, (Obj.entry.inj hk).symm⟩)) h

theorem spares_makeDosEntry (name : DosName) (ok : Bool) : Spares name s (s.makeDosEntry ok).2 := by
  cases ok
  · exact .refl name s
  · exact spares_take name rfl

theorem spares_add (e : DosEntry) : Spares name s { s with dosList := e :: s.dosList } :=
  ⟨rfl, fun _ he _ hh => ⟨List.mem_cons_of_mem _ he, hh⟩, fun _ _ h => h, Nat.le_refl _, fun h => h⟩

theorem spares_remove {name' : DosName} {type : DosType} (hne : (type, name') ≠ (.volume, name)) :
    Spares name s (s.removeDosEntry name' type) := by
  refine ⟨rfl, fun e he hk hh => ⟨(List.mem_eraseP_of_neg ?_).2 he, hh⟩, fun _ _ h => h, Nat.le_refl _, fun h => h⟩
  simpa [hk] using hne.symm

/-- Freeing a node fails if it was freed. -/
theorem freeDosEntry_freed (h : .entry n ∉ s.held) : s.freeDosEntry (some n) = none := by
  simp [freeDosEntry, give, Ledger.give, h]

theorem spares_mountVolume (name : DosName) {r : Bool × Disk × Mounts} (h : s.mountVolume a d = some r) :
    Spares name s r.2.2 := by
  have hmake := spares_makeDosEntry name (s := s) a.entry
  unfold Mounts.mountVolume at h
  split at h
  · next t ht =>
    rw [ht] at hmake
    obtain ⟨t', hf, rfl⟩ := Option.map_eq_some_iff.1 h
    exact hmake.trans (spares_freeDosEntry hf)
  · next n t ht =>
    rw [ht] at hmake
    split at h
    · cases h
      exact hmake.trans (spares_add _)
    · obtain ⟨t', hf, rfl⟩ := Option.map_eq_some_iff.1 h
      exact hmake.trans (spares_freeDosEntry hf)

theorem spares_unmountVolume {r : Disk × Mounts} (hne : d.name ≠ name) (h : s.unmountVolume d = some r) :
    Spares name s r.2 := by
  unfold Mounts.unmountVolume at h
  split at h
  · split at h
    · cases h
      exact .refl name s
    · obtain ⟨t, hf, rfl⟩ := Option.map_eq_some_iff.1 h
      exact (spares_remove fun hk => hne (congrArg Prod.snd hk)).trans (spares_freeDosEntry hf)
  · cases h
    exact .refl name s

theorem spares_freeDosDevice (h : s.freeDosDevice d = some s') : Spares name s s' := by
  obtain ⟨t, ht, h⟩ := Option.bind_eq_some_iff.1 h
  have hne : (DosType.device, devText d.id) ≠ (DosType.volume, name) := by simp
  have hdev : Spares name s t := by
    split at ht
    · cases ht
      exact .refl name s
    · exact (spares_remove hne).trans (spares_freeDosEntry ht)
  refine hdev.trans ?_
  split at h
  · cases h
    exact .refl name _
  · exact spares_give (by simp) h

theorem spares_deleteVolume (h : s.deleteVolume d = some s') : Spares name s s' := by
  obtain ⟨t, ht, h⟩ := Option.bind_eq_some_iff.1 h
  exact (spares_give (by simp) ht).trans (spares_give (by simp) h)

theorem spares_createDosDevice (name : DosName) {r : Bool × Disk × Mounts} (h : s.createDosDevice a d = some r) :
    Spares name s r.2.2 ∧ r.2.1.id = d.id ∧ r.2.1.name = d.name := by
  unfold createDosDevice at h
  split at h
  · have htake := spares_take name (s := s) (o := .memory s.next) rfl
    have hmake := spares_makeDosEntry name
      (s := { s with held := .memory s.next :: s.held, next := s.next + 1 }) a.device
    dsimp only at h
    -- the device cannot be made, or cannot be added
    have hfail : ∀ {d' : Disk} {t : Mounts}, Spares name s t →
        ((t.freeDosEntry d.vol).bind fun t => (t.give (.memory s.next)).map fun s => (a.rest, d', s)) = some r →
        d'.id = d.id → d'.name = d.name → Spares name s r.2.2 ∧ r.2.1.id = d.id ∧ r.2.1.name = d.name := by
      intro d' t ht hr hi hn
      obtain ⟨t₁, h₁, hr⟩ := Option.bind_eq_some_iff.1 hr
      obtain ⟨t₂, h₂, rfl⟩ := Option.map_eq_some_iff.1 hr
      exact ⟨(ht.trans (spares_freeDosEntry h₁)).trans (spares_give (by simp) h₂), hi, hn⟩
    split at h
    · next t ht =>
      rw [ht] at hmake
      exact hfail (htake.trans hmake) h rfl rfl
    · next n t ht =>
      rw [ht] at hmake
      split at h
      · cases h
        exact ⟨(htake.trans hmake).trans (spares_add _), rfl, rfl⟩
      · exact hfail (htake.trans hmake) h rfl rfl
  · cases h

/-- Mounting writes no other field of the volume. -/
theorem mountVolume_id {r : Bool × Disk × Mounts} (h : s.mountVolume a d = some r) :
    r.2.1.id = d.id ∧ r.2.1.name = d.name := by
  unfold Mounts.mountVolume at h
  split at h
  · obtain ⟨t, -, rfl⟩ := Option.map_eq_some_iff.1 h
    exact ⟨rfl, rfl⟩
  · split at h
    · cases h
      exact ⟨rfl, rfl⟩
    · obtain ⟨t, -, rfl⟩ := Option.map_eq_some_iff.1 h
      exact ⟨rfl, rfl⟩

theorem unmountVolume_id {r : Disk × Mounts} (h : s.unmountVolume d = some r) : r.1.id = d.id ∧ r.1.name = d.name := by
  unfold Mounts.unmountVolume at h
  split at h
  · split at h
    · cases h
      exact ⟨rfl, rfl⟩
    · obtain ⟨t, -, rfl⟩ := Option.map_eq_some_iff.1 h
      exact ⟨rfl, rfl⟩
  · cases h
    exact ⟨rfl, rfl⟩

theorem spares_createVolume (name : DosName) {name' : DosName} {r : Option Disk × Mounts}
    (h : s.createVolume a id name' = some r) :
    Spares name s r.2 ∧ ∀ d ∈ r.1, d.id = id ∧ d.name = name' := by
  unfold createVolume at h
  split at h
  · have hobj := spares_take name (s := s) (o := .volume s.next) rfl
    dsimp only at h
    split at h
    · have hport := spares_take name (s := { s with held := .volume s.next :: s.held, next := s.next + 1 })
        (o := .port (s.next + 1)) rfl
      obtain ⟨⟨made, d, t⟩, hc, h⟩ := Option.bind_eq_some_iff.1 h
      obtain ⟨hdev, hi, hn⟩ := spares_createDosDevice name hc
      have ht := (hobj.trans hport).trans hdev
      have hlast : ∀ {t' : Mounts} {d' : Disk}, Spares name s t' →
          ((t'.deleteVolume d').map fun s => ((none : Option Disk), s)) = some r →
          Spares name s r.2 ∧ ∀ d ∈ r.1, d.id = id ∧ d.name = name' := by
        intro t' d' ht' hr
        obtain ⟨t'', h', rfl⟩ := Option.map_eq_some_iff.1 hr
        exact ⟨ht'.trans (spares_deleteVolume h'), nofun⟩
      dsimp only at h
      split at h
      · obtain ⟨⟨mounted, d', t'⟩, hm, h⟩ := Option.bind_eq_some_iff.1 h
        obtain ⟨hi', hn'⟩ := mountVolume_id hm
        have ht' := ht.trans (spares_mountVolume name hm)
        dsimp only at h
        split at h
        · cases h
          refine ⟨ht', fun w hw => ?_⟩
          cases hw
          exact ⟨hi'.trans hi, hn'.trans hn⟩
        · obtain ⟨t₁, h₁, h⟩ := Option.bind_eq_some_iff.1 h
          exact hlast (ht'.trans (spares_freeDosDevice h₁)) h
      · exact hlast ht h
    · obtain ⟨t, ht, rfl⟩ := Option.map_eq_some_iff.1 h
      exact ⟨hobj.trans (spares_give (by simp) ht), nofun⟩
  · cases h
    exact ⟨.refl name s, nofun⟩

/-- **Mounting does not help**: the name is taken, and what is made is freed. -/
theorem Left.mountVolume (h : Left d.name s) (hlt : ∀ o ∈ s.held, o.num < s.next) {r : Bool × Disk × Mounts}
    (hr : s.mountVolume a d = some r) : Lost r.2.1 r.2.2 := by
  have hs := spares_mountVolume d.name hr
  have hname := (mountVolume_id hr).2
  refine ⟨hname ▸ h.spared hs, ?_⟩
  unfold Mounts.mountVolume at hr
  cases ha : a.entry with
  | false =>
    simp only [makeDosEntry, ha, Bool.false_eq_true, if_false, freeDosEntry_none, Option.map_some, Option.some.injEq] at hr
    subst hr
    exact nofun
  | true =>
    obtain ⟨e, he, hk, -⟩ := h
    have hcan : ¬canAdd { s with held := .entry s.next :: s.held, next := s.next + 1 } .volume d.name = true :=
      fun hc => canAdd_iff.1 hc e he hk
    simp only [makeDosEntry, ha, if_true, if_neg hcan] at hr
    obtain ⟨t, ht, rfl⟩ := Option.map_eq_some_iff.1 hr
    intro n hn
    cases hn
    have hfree : s.next ∉ s.dosList.map DosEntry.num := by
      intro hm
      simp only [freeDosEntry, if_pos hm] at ht
      cases ht
    simp only [freeDosEntry, if_neg hfree, give, Ledger.give_cons, Option.map_some, Option.some.injEq] at ht
    subst ht
    exact ⟨Nat.lt_succ_self _, fun hm => absurd (hlt _ hm) (Nat.lt_irrefl _)⟩

theorem Lost.unmountVolume (h : Lost d s) {r : Disk × Mounts} (hr : s.unmountVolume d = some r) : Lost r.1 r.2 := by
  unfold Mounts.unmountVolume at hr
  split at hr
  · split at hr
    · next hv =>
      cases hr
      exact ⟨h.left, fun n hn => absurd (hv.symm.trans hn) nofun⟩
    · next n hv =>
      obtain ⟨t, ht, -⟩ := Option.map_eq_some_iff.1 hr
      rw [freeDosEntry_freed (s := s.removeDosEntry d.name .volume) (h.freed n hv).2] at ht
      cases ht
  · cases hr
    exact h

theorem spares_freeVolume (hne : d.name ≠ name) (h : s.freeVolume d = some s') : Spares name s s' := by
  obtain ⟨t, ht, h⟩ := Option.bind_eq_some_iff.1 h
  obtain ⟨t', ht', h⟩ := Option.bind_eq_some_iff.1 h
  have hvol : Spares name s t := by
    split at ht
    · cases ht
      exact .refl name s
    · obtain ⟨r, hr, hf⟩ := Option.bind_eq_some_iff.1 ht
      exact (spares_unmountVolume hne hr).trans (spares_freeDosEntry hf)
  exact (hvol.trans (spares_freeDosDevice ht')).trans (spares_deleteVolume h)

theorem Lost.freeVolume (h : Lost d s) (hs : s.freeVolume d = some s') : Left d.name s' := by
  obtain ⟨t, ht, hs⟩ := Option.bind_eq_some_iff.1 hs
  obtain ⟨t', ht', hs⟩ := Option.bind_eq_some_iff.1 hs
  have hleft : Left d.name t := by
    split at ht
    · cases ht
      exact h.left
    · next n hv =>
      -- the node of the field was freed
      have hfreed := (h.freed n hv).2
      obtain ⟨r, hr, hf⟩ := Option.bind_eq_some_iff.1 ht
      unfold Mounts.unmountVolume at hr
      simp only [hv] at hr
      split at hr
      · rw [freeDosEntry_freed (s := s.removeDosEntry d.name .volume) hfreed] at hr
        cases hr
      · cases hr
        rw [hv, freeDosEntry_freed hfreed] at hf
        cases hf
  exact (hleft.spared (spares_freeDosDevice ht')).spared (spares_deleteVolume hs)

theorem Left.freeVolumes (h : Left name s) (hn : ∀ d ∈ ds, d.name ≠ name) (hs : Mounts.freeVolumes ds s = some s') :
    Left name s' := by
  induction ds generalizing s with
  | nil =>
    cases hs
    exact h
  | cons d ds ih =>
    rw [List.forall_mem_cons] at hn
    obtain ⟨t, ht, hs⟩ := Option.bind_eq_some_iff.1 hs
    exact ih (h.spared (spares_freeVolume hn.1 ht)) hn.2 hs

/-- **The node is never given back.** -/
theorem Lost.freeVolumes (h : Lost d s) (hd : d ∈ ds) (hn : (ds.map Disk.name).Nodup)
    (hs : Mounts.freeVolumes ds s = some s') : Left d.name s' := by
  induction ds generalizing s with
  | nil => cases hd
  | cons w ds ih =>
    rw [List.map_cons, List.nodup_cons] at hn
    obtain ⟨t, ht, hend⟩ := Option.bind_eq_some_iff.1 hs
    rcases List.mem_cons.1 hd with rfl | hd
    · exact (h.freeVolume ht).freeVolumes (fun w hw he => hn.1 (he ▸ List.mem_map_of_mem hw)) hend
    · have hne : w.name ≠ d.name := fun he => hn.1 (he ▸ List.mem_map_of_mem hd)
      exact ih (h.spared (spares_freeVolume hne ht)) hd hn.2 hend

/-- A node of a volume is lost. -/
structure Broken (s : Mounts) : Prop where
  ids : (s.vols.map Disk.id).Nodup
  names : (s.vols.map Disk.name).Nodup
  numbered : ∀ o ∈ s.held, o.num < s.next
  lost : ∃ d ∈ s.vols, Lost d s

theorem nodup_map_append {α β : Type} {f : α → β} {l : List α} {o : Option α} (hl : (l.map f).Nodup)
    (ho : ∀ a ∈ o, ∀ b ∈ l, f b ≠ f a) : ((l ++ o.toList).map f).Nodup := by
  cases o with
  | none => simpa using hl
  | some a =>
    rw [Option.toList_some, List.map_append, List.map_singleton]
    refine hl.append (List.nodup_singleton _) (List.disjoint_singleton.2 fun hm => ?_)
    obtain ⟨b, hb, he⟩ := List.mem_map.1 hm
    exact ho a rfl b hb he

/-- A volume is written back while another one is lost. -/
theorem Broken.put (h : Broken s) {w w' : Disk} {t : Mounts} (hw : w ∈ s.vols) (hi : w'.id = w.id) (hn : w'.name = w.name)
    (ht : ∀ name, w.name ≠ name → Spares name s t) (hv : t.vols = s.vols) (hlt : ∀ o ∈ t.held, o.num < t.next)
    (hsame : Lost w s → Lost w' t) : Broken { t with vols := Keyed.put Disk.id t.vols w' } := by
  obtain ⟨d, hd, hl⟩ := h.lost
  refine ⟨?_, ?_, hlt, ?_⟩
  · rw [hv, Keyed.map_key_put]
    exact h.ids
  · rw [hv, Keyed.map_put_of_mem Disk.name h.ids hw hi hn]
    exact h.names
  · by_cases hdw : d.id = w.id
    · obtain rfl := List.inj_on_of_nodup_map h.ids hd hw hdw
      have hl' := hsame hl
      exact ⟨w', hv ▸ Keyed.mem_put_self hd hi.symm, hl'.left, hl'.freed⟩
    · have hne : w.name ≠ d.name := fun he => hdw (congrArg Disk.id (List.inj_on_of_nodup_map h.names hd hw he.symm))
      have hl' := hl.spared (ht d.name hne)
      exact ⟨d, hv ▸ Keyed.mem_put_of_ne hd (hi ▸ hdw), hl'.left, hl'.freed⟩

/-- **It stays lost**, whatever messages come. -/
theorem Broken.step (h : Broken s) {ev : Event} (hl : Legal others s ev) (hs : s.step ev = some s') : Broken s' := by
  cases ev with
  | mount id name a =>
    cases hf : s.find id with
    | some w =>
      simp only [Mounts.step, hf] at hs
      obtain ⟨r, hr, rfl⟩ := Option.map_eq_some_iff.1 hs
      have hsp : ∀ name, Spares name s r.2.2 := fun name => spares_mountVolume name hr
      obtain ⟨hi, hn⟩ := mountVolume_id hr
      exact h.put (find_some hf).1 hi hn (fun name _ => hsp name) (hsp w.name).vols ((hsp w.name).numbered h.numbered)
        fun hlost => hlost.left.mountVolume h.numbered hr
    | none =>
      obtain ⟨hname, -, -⟩ := hl hf
      simp only [Mounts.step, hf] at hs
      obtain ⟨r, hr, rfl⟩ := Option.map_eq_some_iff.1 hs
      obtain ⟨d, hd, hlost⟩ := h.lost
      obtain ⟨hsp, hnew⟩ := spares_createVolume d.name hr
      have hl' := hlost.spared hsp
      refine ⟨?_, ?_, hsp.numbered h.numbered, d, ?_, hl'.left, hl'.freed⟩
      · rw [hsp.vols]
        refine nodup_map_append h.ids fun w hw v hv he => ?_
        exact find_none hf v hv (he.trans (hnew w hw).1)
      · rw [hsp.vols]
        refine nodup_map_append h.names fun w hw v hv he => ?_
        exact hname v hv (he.trans (hnew w hw).2)
      · rw [hsp.vols]
        exact List.mem_append_left _ hd
  | unmount id =>
    cases hf : s.find id with
    | some w =>
      simp only [Mounts.step, hf] at hs
      obtain ⟨r, hr, rfl⟩ := Option.map_eq_some_iff.1 hs
      obtain ⟨hi, hn⟩ := unmountVolume_id hr
      have hsp : ∀ name, w.name ≠ name → Spares name s r.2 := fun name hne => spares_unmountVolume hne hr
      -- some other name
      have hother := hsp (0 :: w.name) (List.cons_ne_self 0 w.name).symm
      exact h.put (find_some hf).1 hi hn hsp hother.vols (hother.numbered h.numbered) fun hlost => hlost.unmountVolume hr
    | none =>
      simp only [Mounts.step, hf, Option.some.injEq] at hs
      exact hs ▸ h

/-- A volume that is mounted is mounted again. -/
theorem Good.remounted (h : Good others s) {ev : Event} (ha : ¬Apart s ev) (hs : s.step ev = some s') : Broken s' := by
  cases ev with
  | mount id name a =>
    simp only [Apart, Option.mem_def, not_forall, Bool.not_eq_false] at ha
    obtain ⟨d, hf, hm⟩ := ha
    obtain ⟨hd, -⟩ := find_some hf
    simp only [Mounts.step, hf] at hs
    obtain ⟨r, hr, rfl⟩ := Option.map_eq_some_iff.1 hs
    obtain ⟨n, hv⟩ := Option.isSome_iff_exists.1 ((h.fits d hd).symm.trans hm)
    -- its node is in the list
    have hleft : Left d.name s := by
      refine ⟨d.volumeEntry n, h.list.mem_iff.2 ?_, rfl, h.held.mem_iff.2 ?_⟩
      · exact List.mem_append_left _ (List.mem_flatMap.2 ⟨d, hd, by simp [Disk.entries, hv]⟩)
      · exact List.mem_flatMap.2 ⟨d, hd, by simp [Disk.objs, hv, Disk.volumeEntry]⟩
    have hsp := spares_mountVolume d.name hr
    obtain ⟨hi, hn⟩ := mountVolume_id hr
    have hlost := hleft.mountVolume h.held_lt hr
    refine ⟨?_, ?_, hsp.numbered h.held_lt, r.2.1, ?_, hlost.left, hlost.freed⟩
    · rw [hsp.vols, Keyed.map_key_put]
      exact h.ids
    · rw [hsp.vols, Keyed.map_put_of_mem Disk.name h.ids hd hi hn]
      exact h.names
    · rw [hsp.vols]
      exact Keyed.mem_put_self hd hi.symm
  | unmount id => exact absurd trivial ha

theorem good_start {next : Nat} (hk : (others.map DosEntry.key).Nodup) (hu : (others.map DosEntry.num).Nodup)
    (hlt : ∀ e ∈ others, e.num < next) : Good others (start others next) :=
  ⟨⟨.refl _, .refl _, fun _ hd => absurd hd List.not_mem_nil, fun _ hd => absurd hd List.not_mem_nil, hk, hu⟩,
    List.nodup_nil, fun _ ho => absurd ho List.not_mem_nil, hlt, List.nodup_nil, List.nodup_nil,
    fun _ hd => absurd hd List.not_mem_nil⟩

/-- Everything is given back, and the DOS list is what it was. -/
def Clean (others : List DosEntry) (s : Mounts) : Prop := ∃ t, s.freeDevice = some t ∧ t.held = [] ∧ t.dosList.Perm others

theorem Good.clean (h : Good others s) : Clean others s := by
  have ho : Owned others s.vols { s with vols := [] } := ⟨h.held, h.list, h.fits, h.made, h.keys, h.nums⟩
  exact ho.freeVolumes

theorem Broken.not_clean (h : Broken s) : ¬Clean others s := by
  rintro ⟨t, ht, hheld, -⟩
  obtain ⟨d, hd, hl⟩ := h.lost
  have hl' : Lost d { s with vols := [] } := ⟨hl.left, hl.freed⟩
  obtain ⟨e, -, -, hh⟩ := hl'.freeVolumes hd h.names ht
  rw [hheld] at hh
  cases hh

/-- Runs from a good state: all goes well as long as no volume is mounted twice, and never again after that. -/
theorem Good.run {es : List Event} (h : Good others s) (hok : Along (Legal others) Mounts.step s es) :
    ((∃ x, runs Mounts.step s es = some x ∧ Clean others x) ↔ Along Apart Mounts.step s es) ∧
      (Along Apart Mounts.step s es → ∃ x, runs Mounts.step s es = some x ∧ Good others x) := by
  induction es generalizing s with
  | nil => exact ⟨iff_of_true ⟨s, rfl, h.clean⟩ trivial, fun _ => ⟨s, rfl, h⟩⟩
  | cons ev es ih =>
    by_cases ha : Apart s ev
    · obtain ⟨s', hs, hg⟩ := h.step hok.1 ha
      rw [runs_cons hs, along_cons hs]
      obtain ⟨hiff, hrun⟩ := ih hg (hok.2 s' hs)
      exact ⟨hiff.trans (and_iff_right ha).symm, fun hall => hrun hall.2⟩
    · refine ⟨iff_of_false ?_ fun hall => ha hall.1, fun hall => absurd hall.1 ha⟩
      rintro ⟨x, hx, hc⟩
      obtain ⟨s', hs, hx⟩ := runs_cons_some hx
      exact (runs_inv Broken (fun _ _ _ hb hl hs => hb.step hl hs) (h.remounted ha hs) (hok.2 s' hs) hx).not_clean hc

/-- **The DOS list and the system get back what the handler took**, exactly if no message mounts a volume that is mounted.
As long as none does, every volume is a device in the list, and those that are mounted, and only they, are volumes. -/
theorem mounts_exact (others : List DosEntry) (next : Nat) (hk : (others.map DosEntry.key).Nodup)
    (hu : (others.map DosEntry.num).Nodup) (hlt : ∀ e ∈ others, e.num < next) (es : List Event)
    (hok : Along (Legal others) step (start others next) es) :
    ((∃ x, runs step (start others next) es = some x ∧ Clean others x) ↔ Along Apart step (start others next) es) ∧
      (Along Apart step (start others next) es →
        ∃ x, runs step (start others next) es = some x ∧ Owned others x.vols x) := by
  obtain ⟨hiff, hrun⟩ := (good_start hk hu hlt).run hok
  refine ⟨hiff, fun ha => ?_⟩
  obtain ⟨x, hx, hg⟩ := hrun ha
  exact ⟨x, hx, hg.toOwned⟩

/-- The system has everything. -/
def supplied : Answers := ⟨true, true, true, true, true, none, none, false, false⟩

/-- The DOS list of a machine with a RAM disk. -/
def ramDisk : List DosEntry := [⟨0, .device, [82, 65, 77], 1⟩, ⟨1, .volume, [82, 65, 77], 1⟩]

/-- Two volumes, one of which goes and comes back. -/
def comeBack : List Event :=
  [.mount 3 [65] supplied, .mount 4 [66] supplied, .unmount 3, .mount 3 [65] supplied]

/-- They are given back, but not if the volume is announced once more. -/
theorem mounts_exact_comeBack :
    (∃ x, runs step (start ramDisk 2) comeBack = some x ∧ Clean ramDisk x) ∧
      ¬∃ x, runs step (start ramDisk 2) (comeBack ++ [.mount 3 [65] supplied]) = some x ∧ Clean ramDisk x := by
  have hk : (ramDisk.map DosEntry.key).Nodup := by decide
  have hu : (ramDisk.map DosEntry.num).Nodup := by decide
  have hlt : ∀ e ∈ ramDisk, e.num < 2 := by decide
  constructor
  · exact (mounts_exact ramDisk 2 hk hu hlt comeBack (by decide +kernel)).1.2 (by decide +kernel)
  · rw [(mounts_exact ramDisk 2 hk hu hlt _ (by decide +kernel)).1]
    decide +kernel

end Mounts

end AmiPiBorg.Fs
