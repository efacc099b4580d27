import VkCocoon.Lib.Pool
import VkCocoon.World

/-!
# The calls that bind a VM and the two indexes

A VM of the runtime is found again through `vmsByPod` or through `vmsByName`. The calls that bind a
VM, that take its key over for another incarnation and that remove it write the two in sections of
their own. An entry of the name index is dropped by the identity of its record, so every record has
the address it was made at. What each section does to the records that are reachable.
-/

namespace VkCocoon
open Lib Tables

/-- The VMs of the runtime with their names. No two have one name. -/
structure LiveVMs where
  names : GoMap VMID String
  name_unique : ∀ i j n, names.get i = some n → names.get j = some n → i = j

namespace LiveVMs

def has (l : LiveVMs) (id : VMID) : Bool := l.names.has id

/-- `Runtime.Remove` -/
def remove (l : LiveVMs) (id : VMID) : LiveVMs where
  names := l.names.del id
  name_unique := by
    intro i j n hi hj
    rw [GoMap.get_del] at hi hj
    split at hi
    · cases hi
    · split at hj
      · cases hj
      · exact l.name_unique i j n hi hj

/-- Neither the ID nor the name is in use. -/
def Free (l : LiveVMs) (v : VM) : Prop := l.has v.id = false ∧ ∀ e ∈ l.names.toList, e.2 ≠ v.name

instance (l : LiveVMs) (v : VM) : Decidable (l.Free v) :=
  inferInstanceAs (Decidable (_ ∧ _))

theorem Free.name {l : LiveVMs} {v : VM} (h : l.Free v) (i : VMID) : l.names.get i ≠ some v.name :=
  fun hi => h.2 _ ((GoMap.mem_toList _ _ _).mpr hi) rfl

def add (l : LiveVMs) (v : VM) (h : l.Free v) : LiveVMs where
  names := l.names.set v.id v.name
  name_unique := by
    intro i j n hi hj
    rw [GoMap.get_set] at hi hj
    split at hi
    next hvi =>
      cases hi
      split at hj
      next hvj => rw [hvi, hvj]
      next => exact absurd hj (h.name j)
    next =>
      split at hj
      next =>
        cases hj
        exact absurd hi (h.name i)
      next => exact l.name_unique i j n hi hj

end LiveVMs

structure Fleet where
  tables : Tables
  live : LiveVMs
  /-- a note: the ID and the name of the VM that the record at an address was made for -/
  made : GoMap ℕ (VMID × String)

namespace Fleet

def onTables (f : Fleet) (g : Tables → Tables) : Fleet := { f with tables := g f.tables }

/-- A record of `v` is made at the next address. -/
def alloc (f : Fleet) (v : VM) : Fleet :=
  { f with
    tables := { f.tables with nextAddr := f.tables.nextAddr + 1 }
    made := f.made.set f.tables.nextAddr (v.id, v.name) }

/-- `Runtime.Run` and `Runtime.Clone`: the runtime refuses a name that is taken, and gives no ID twice. -/
def launch (f : Fleet) (v : VM) : Option Fleet :=
  if h : f.live.Free v ∧ ∀ e ∈ f.made.toList, e.2.1 ≠ v.id then
    some { f with live := f.live.add v h.1 }
  else none

def updateTrackedVM (f : Fleet) (key : Key) (vmID : VMID) (m : VMMutation) : Fleet :=
  match f.tables.updateTrackedVM key vmID m with
  | (_, none) => f
  | (t, some updated) =>
    { f with tables := t, made := f.made.set updated.addr (updated.id, updated.name) }

/-- The VM is bound, or indexed under its name by a record with its ID. -/
def Reaches (f : Fleet) (v : VM) : Prop :=
  (∃ k r, f.tables.vmsByPod.get k = some r ∧ r.id = v.id) ∨
    ∃ r, f.tables.vmsByName.get v.name = some r ∧ r.id = v.id

end Fleet

inductive FleetPC where
  -- UpdatePod
  | resuming
  | look
  | hasWakeSource
  | replace (uid : UID) (v : Option VM)
  | update (v : Option VM)
  | wake
  -- CreatePod
  | track
  | adopt
  | inspect (existing : VM)
  | drop (existing : VM)
  | bringUp
  | failCreate
  -- bindRuntime
  | bind (v : VM)
  | stamp (v : VM)
  | patch (v : VM)
  | detach (v : VM)
  | ended (v : VM)
  -- DeletePod
  | claim
  | backoff
  | vmForPod
  | save (v : VM)
  | remove (v : VM)
  | forget
  | finish
  | done
deriving DecidableEq, Repr

structure FleetAnswer where
  reply : Reply
  /-- what a launch returns -/
  vm : VM
  wakeSource : Bool
deriving DecidableEq, Repr

/-- A call for a managed guest of the runtime. `CreatePod` and `wake` end in `bindRuntime`. -/
structure FleetCall where
  pod : Pod
  pc : FleetPC
deriving DecidableEq, Repr

namespace FleetCall
variable (x : FleetCall)

/-- The launch of `bringUpVM` and of `cloneFromHibernate`. One that fails may leave a VM behind. -/
def launched (f : Fleet) (a : FleetAnswer) (failed : FleetPC) : Option (Fleet × FleetPC) :=
  if !a.reply.lands then some (f, failed)
  else if a.vm.name ≠ x.pod.spec.vmName then none
  else
    (f.launch a.vm).map fun f' =>
      if a.reply.err.isSome then (f', failed)
      else (f'.alloc a.vm, .bind { a.vm with addr := f'.tables.nextAddr })

def step (f : Fleet) (a : FleetAnswer) : Option (Fleet × FleetPC) :=
  let pod := x.pod
  let t := f.tables
  match x.pc with
  | .resuming => some (f, if t.resumedOps.has pod.key then .done else .look)
  | .look =>
    let v := t.vmsByPod.get pod.key
    match t.pods.get pod.key with
    | none => some (f, if v.isNone && !pod.hibernate then .hasWakeSource else .update v)
    | some tracked => some (f, if tracked.uid = pod.uid then .update v else .replace tracked.uid v)
  | .hasWakeSource =>
    some (f, if a.reply.err.isSome then .done else if a.wakeSource then .update none else .track)
  | .replace uid v =>
    some (f.onTables fun t => (t.detachIncarnation pod.key uid v).1,
      if (t.detachIncarnation pod.key uid v).2 then .track else .done)
  | .update v =>
    -- what else `applyUpdate` does binds no VM
    some (f.onTables fun t => (t.trackPodUnlessDeleting pod none).1,
      if (t.trackPodUnlessDeleting pod none).2 && v.isNone && !pod.hibernate then .wake else .done)
  | .wake => if pod.spec.vmName = "" then some (f, .done) else x.launched f a .done
  | .track =>
    if pod.spec.vmName = "" then some (f, .done)
    else
      some (f.onTables fun t => (t.trackPodUnlessDeleting pod none).1,
        if (t.trackPodUnlessDeleting pod none).2 then .adopt else .done)
  | .adopt =>
    match t.vmsByName.get pod.spec.vmName with
    | none => some (f, .bringUp)
    | some existing => some (f, if isMacosVM existing then .bringUp else .inspect existing)
  | .inspect existing =>
    some (f, if a.reply.err.isSome then .failCreate
      else if f.live.has existing.id then .bind existing else .drop existing)
  | .drop existing => some (f.onTables (·.dropStaleIndex pod.spec.vmName existing), .bringUp)
  | .bringUp => x.launched f a .failCreate
  | .failCreate => some (f.onTables (·.failCreate pod false), .done)
  | .bind v =>
    some (f.onTables fun t => (t.trackPodIncarnation pod v).1,
      if (t.trackPodIncarnation pod v).2 then .stamp v else .ended v)
  | .stamp v =>
    some (f.onTables fun t => (t.applyVMRuntime pod v.id v.ip).1,
      if (t.applyVMRuntime pod v.id v.ip).2 then .patch v else .detach v)
  | .patch v => some (f, if a.reply = .nameTaken then .detach v else .ended v)
  | .detach v =>
    some (f.onTables fun t => (t.detachIncarnation pod.key pod.uid (some v)).1, .ended v)
  | .claim =>
    some (f.onTables fun t => (t.claimDeleting pod.key pod.uid).1,
      if (t.claimDeleting pod.key pod.uid).2 = .claimed then .backoff else .done)
  | .backoff => some (f, if t.resumedOps.has pod.key then .finish else .vmForPod)
  | .vmForPod =>
    match t.vmsByPod.get pod.key with
    | none => some (f, .forget)
    | some v => some (f, .save v)
  | .save v => some (f, if a.reply.err.isSome then .finish else .remove v)
  | .remove v =>
    some ({ f with live := if a.reply.lands then f.live.remove v.id else f.live },
      if a.reply.err.isSome then .finish else .forget)
  | .forget => some (f.onTables (·.forgetPod pod.key), .finish)
  | .finish => some (f.onTables (·.finishDeleting pod.key), .done)
  | .ended _ | .done => none

/-- The call is `UpdatePod`, `CreatePod` or `DeletePod` of a managed pod that is not a macOS guest. -/
def enters : Bool :=
  x.pod.spec.managed && !isMacosSpec x.pod.spec &&
    (x.pc == .resuming || x.pc == .track || x.pc == .claim)

end FleetCall

/-- The surroundings: a claim of another incarnation, a copy of the tracked record, and a removal by
somebody else. -/
inductive FleetEnv where
  | claim (pod : Pod)
  | update (key : Key) (vmID : VMID) (m : VMMutation)
  | remove (id : VMID)
deriving DecidableEq, Repr

def Fleet.env (f : Fleet) : FleetEnv → Fleet
  | .claim pod => f.onTables fun t => (t.trackPodUnlessDeleting pod none).1
  | .update key vmID m => f.updateTrackedVM key vmID m
  | .remove id => { f with live := f.live.remove id }

def fleet : Program Fleet FleetCall FleetAnswer FleetEnv :=
  .ofStep (fun _ x => x.enters) (fun f _ x a => (x.step f a).map fun r => (r.1, { x with pc := r.2 }))
    (fun f o => some (f.env o))

abbrev FleetEvent := PoolEvent FleetCall FleetAnswer FleetEnv

namespace Fleet

/-- A record of a VM that is gone takes the place of no entry of a VM that is there. -/
def MayIndex (f : Fleet) (v : VM) : Prop :=
  ∀ r ∈ f.tables.vmsByName.get v.name, f.live.has r.id = true → f.live.has v.id = true

/-- If the incarnation is untracked, the VM bound to the key is gone or the one that was passed. -/
def MayDetach (f : Fleet) (key : Key) (uid : UID) (v : Option VM) : Prop :=
  f.tables.trackedPodMatches key uid = true →
    ∀ r ∈ f.tables.vmsByPod.get key, f.live.has r.id = true → v.map (·.id) = some r.id

end Fleet

def FleetCall.Keeps (f : Fleet) (x : FleetCall) : Prop :=
  match x.pc with
  | .bind v => f.MayIndex v
  | .detach v => f.MayIndex v ∧ f.MayDetach x.pod.key x.pod.uid (some v)
  | .replace uid v => (∀ w ∈ v, f.MayIndex w) ∧ f.MayDetach x.pod.key uid v
  | _ => True

/-- The sections that write the two indexes meet the two conditions. -/
def KeepsVMs (c : Config Fleet FleetCall) : FleetEvent → Prop
  | .run i _ => ∀ x ∈ c.threads[i]?, x.Keeps c.shared
  | .env (.update key vmID m) =>
    ∀ v ∈ (c.shared.tables.updateTrackedVM key vmID m).2, c.shared.MayIndex v
  | _ => True

/-! ### Records -/

namespace Fleet

def Known (f : Fleet) (v : VM) : Prop := f.made.get v.addr = some (v.id, v.name)

def Indexes (f : Fleet) (v : VM) : Prop := ∃ r, f.tables.vmsByName.get v.name = some r ∧ r.id = v.id

/-- The tables hold records, each under the name of its VM, and an address has one record. -/
structure Sound (f : Fleet) : Prop where
  bound : ∀ k r, f.tables.vmsByPod.get k = some r → f.Known r
  named : ∀ n r, f.tables.vmsByName.get n = some r → f.Known r ∧ r.name = n ∧ n ≠ ""
  fresh : ∀ a e, f.made.get a = some e → a < f.tables.nextAddr
  names : ∀ a id n m, f.made.get a = some (id, n) → f.live.names.get id = some m → m = n

section Records
variable {f f' : Fleet} {v r : VM}

theorem known_inj (hv : f.Known v) (hr : f.Known r) (ha : v.addr = r.addr) :
    v.id = r.id ∧ v.name = r.name := by
  unfold Known at hv hr
  rw [ha, hr] at hv
  exact ⟨(Prod.mk.inj (Option.some.inj hv)).1.symm, (Prod.mk.inj (Option.some.inj hv)).2.symm⟩

theorem Sound.live_name (hf : f.Sound) (hv : f.Known v) (hlive : f.live.has v.id = true) :
    f.live.names.get v.id = some v.name := by
  obtain ⟨n, hn⟩ := (GoMap.has_iff _ _).mp hlive
  rw [hn, hf.names _ _ _ _ hv hn]

theorem Sound.id_of_name (hf : f.Sound) (hv : f.Known v) (hr : f.Known r) (hname : v.name = r.name)
    (hlv : f.live.has v.id = true) (hlr : f.live.has r.id = true) : v.id = r.id := by
  have hn := hf.live_name hv hlv
  rw [hname] at hn
  exact f.live.name_unique _ _ _ hn (hf.live_name hr hlr)

theorem Sound.name_of_id (hf : f.Sound) (hv : f.Known v) (hr : f.Known r) (hid : v.id = r.id)
    (hlr : f.live.has r.id = true) : v.name = r.name := by
  have hn := hf.live_name hv (by rwa [hid])
  rw [hid, hf.live_name hr hlr] at hn
  exact (Option.some.inj hn).symm

/-- What every step leaves as it is: the records that were made, the VMs that are gone, the entries of
the live ones, and, while the key is claimed by a delete, the VM it is bound to. -/
structure Onto (f f' : Fleet) : Prop where
  made : ∀ v, f.Known v → f'.Known v
  gone : ∀ v, f.Known v → f.live.has v.id = false → f'.live.has v.id = false
  index : ∀ v, f.Known v → f'.live.has v.id = true → f.Indexes v → f'.Indexes v
  held : ∀ k r', f.tables.deleting.has k = true → f'.tables.vmsByPod.get k = some r' →
    ∃ r, f.tables.vmsByPod.get k = some r ∧ r.id = r'.id

theorem Onto.refl (f : Fleet) : f.Onto f :=
  ⟨fun _ h => h, fun _ _ h => h, fun _ _ _ h => h, fun _ r' _ h => ⟨r', h, rfl⟩⟩

theorem Onto.trans {f'' : Fleet} (h : f.Onto f') (h' : f'.Onto f'')
    (hdel : f'.tables.deleting = f.tables.deleting) : f.Onto f'' where
  made v hv := h'.made v (h.made v hv)
  gone v hv hl := h'.gone v (h.made v hv) (h.gone v hv hl)
  index v hv hl hi := by
    have hl' : f'.live.has v.id = true := by
      by_contra hne
      rw [h'.gone v (h.made v hv) (by simpa using hne)] at hl
      cases hl
    exact h'.index v (h.made v hv) hl (h.index v hv hl' hi)
  held k r'' hk hr := by
    obtain ⟨r', hr', hid'⟩ := h'.held k r'' (by rwa [hdel]) hr
    obtain ⟨r, hr, hid⟩ := h.held k r' hk hr'
    exact ⟨r, hr, hid.trans hid'⟩

/-- What a section does to the two indexes. A record it writes is known, and it drops only entries of
VMs that are gone. -/
structure Moves (f : Fleet) (t' : Tables) : Prop where
  bound : ∀ k r, t'.vmsByPod.get k = some r → f.tables.vmsByPod.get k = some r ∨
    f.Known r ∧ (f.tables.deleting.has k = true → ∃ u, f.tables.vmsByPod.get k = some u ∧ u.id = r.id)
  named : ∀ n r, t'.vmsByName.get n = some r → f.tables.vmsByName.get n = some r ∨
    n = r.name ∧ n ≠ "" ∧ f.Known r ∧ f.MayIndex r
  dropped : ∀ n r, f.tables.vmsByName.get n = some r → t'.vmsByName.get n = none →
    f.live.has r.id = false
  nextAddr : t'.nextAddr = f.tables.nextAddr

theorem Moves.sound {t' : Tables} (h : f.Moves t') (hf : f.Sound) : Sound { f with tables := t' } where
  bound k r hr := (h.bound k r hr).elim (hf.bound k r) (·.1)
  named n r hr := (h.named n r hr).elim (hf.named n r) fun hn => ⟨hn.2.2.1, hn.1.symm, hn.2.1⟩
  fresh a e he := h.nextAddr ▸ hf.fresh a e he
  names := hf.names

theorem Moves.onto {t' : Tables} (h : f.Moves t') (hf : f.Sound) : f.Onto { f with tables := t' } where
  made _ hv := hv
  gone _ _ hl := hl
  index v hv hl := by
    rintro ⟨r, hr, hid⟩
    have hlr : f.live.has r.id = true := by rwa [hid]
    cases hget : t'.vmsByName.get v.name with
    | none =>
      rw [h.dropped _ r hr hget] at hlr
      cases hlr
    | some r' =>
      rcases h.named _ r' hget with hsame | ⟨hname, -, hknown, hmay⟩
      · exact ⟨r', hget, by rw [hr] at hsame; rw [← Option.some.inj hsame, hid]⟩
      · -- the new entry is of a VM that is there, and two of them do not share the name
        have hl' : f.live.has r'.id = true := hmay r (by rw [← hname]; exact hr) hlr
        exact ⟨r', hget, (hf.id_of_name hv hknown hname hl hl').symm⟩
  held k r' hk hr := by
    rcases h.bound k r' hr with hsame | ⟨-, hheld⟩
    · exact ⟨r', hsame, rfl⟩
    · exact hheld hk

theorem Moves.of_eq {t' : Tables} (hp : t'.vmsByPod = f.tables.vmsByPod)
    (hn : t'.vmsByName = f.tables.vmsByName) (ha : t'.nextAddr = f.tables.nextAddr) : f.Moves t' := by
  constructor
  · intro k r hr
    exact Or.inl (by rwa [hp] at hr)
  · intro n r hr
    exact Or.inl (by rwa [hn] at hr)
  · intro n r hr hnone
    rw [hn, hr] at hnone
    cases hnone
  · exact ha

end Records

/-! ### The sections -/

section Sections
variable {f : Fleet} {pod : Pod} {key : Key} {uid : UID} {v : VM}

theorem moves_trackPodUnlessDeleting (f : Fleet) (pod : Pod) :
    f.Moves (f.tables.trackPodUnlessDeleting pod none).1 := by
  unfold trackPodUnlessDeleting
  split
  · exact .of_eq rfl rfl rfl
  · obtain ⟨l, hl⟩ := f.tables.trackPodLocked_eq pod none
    rw [hl]
    exact .of_eq rfl rfl rfl

theorem moves_applyVMRuntime (f : Fleet) (pod : Pod) (vmid : VMID) (ip : String) :
    f.Moves (f.tables.applyVMRuntime pod vmid ip).1 := by
  unfold applyVMRuntime mutatePod
  repeat' split
  all_goals exact .of_eq rfl rfl rfl

theorem moves_failCreate (f : Fleet) (pod : Pod) (absent : Bool) :
    f.Moves (f.tables.failCreate pod absent) := by
  unfold failCreate
  dsimp only
  repeat' split
  all_goals exact .of_eq rfl rfl rfl

theorem moves_claimDeleting (f : Fleet) (key : Key) (uid : UID) :
    f.Moves (f.tables.claimDeleting key uid).1 := by
  unfold claimDeleting
  repeat' split
  all_goals exact .of_eq rfl rfl rfl

/- A record in the name index, with nothing else changed. -/
theorem moves_index (hv : f.Known v) (hmay : f.MayIndex v) :
    f.Moves (f.tables.indexOrphanByNameLocked v) := by
  constructor
  · intro k r hr
    rw [indexOrphanByNameLocked_vmsByPod] at hr
    exact Or.inl hr
  · intro n r hr
    rw [indexOrphanByNameLocked_vmsByName] at hr
    split at hr
    next hn =>
      cases hr
      exact Or.inr ⟨hn.1, hn.1 ▸ hn.2, hv, hmay⟩
    next => exact Or.inl hr
  · intro n r hr hnone
    rw [indexOrphanByNameLocked_vmsByName] at hnone
    split at hnone
    · cases hnone
    · rw [hr] at hnone
      cases hnone
  · obtain ⟨names, h⟩ := f.tables.indexOrphanByNameLocked_eq v
    rw [h]

/- A record in both indexes. -/
theorem moves_setVM {t : Tables} (hp : t.vmsByPod = f.tables.vmsByPod)
    (hn : t.vmsByName = f.tables.vmsByName) (ha : t.nextAddr = f.tables.nextAddr) (hv : f.Known v)
    (hmay : f.MayIndex v)
    (hheld : f.tables.deleting.has key = true → ∃ u, f.tables.vmsByPod.get key = some u ∧ u.id = v.id) :
    f.Moves (t.setVMLocked key v) := by
  constructor
  · intro k r hr
    rw [setVMLocked_vmsByPod, GoMap.get_set, hp] at hr
    split at hr
    next hk =>
      cases hr
      exact Or.inr ⟨hv, hk ▸ hheld⟩
    next => exact Or.inl hr
  · intro n r hr
    rw [setVMLocked_vmsByName, hn] at hr
    split at hr
    next hname =>
      cases hr
      exact Or.inr ⟨hname.1, hname.1 ▸ hname.2, hv, hmay⟩
    next => exact Or.inl hr
  · intro n r hr hnone
    rw [setVMLocked_vmsByName, hn] at hnone
    split at hnone
    · cases hnone
    · rw [hr] at hnone
      cases hnone
  · exact ha

theorem moves_trackPodIncarnation (hv : f.Known v) (hmay : f.MayIndex v) (pod : Pod) :
    f.Moves (f.tables.trackPodIncarnation pod v).1 := by
  unfold trackPodIncarnation
  split
  · exact moves_index hv hmay
  next hfree =>
    obtain ⟨l, hl⟩ := f.tables.trackPodLocked_eq pod (some v)
    rw [hl]
    refine moves_setVM rfl rfl rfl hv hmay fun hdel => ?_
    exact absurd (Bool.or_eq_true_iff.mpr (Or.inl hdel)) hfree

/- What is left of the name index by the drop of a binding. -/
theorem Sound.dropVM_cases (hf : f.Sound) {n : String} {r : VM} (hr : f.tables.vmsByName.get n = some r)
    (hnone : (f.tables.dropVMLocked key).vmsByName.get n = none) :
    ∃ u, f.tables.vmsByPod.get key = some u ∧ u.id = r.id ∧ u.name = n := by
  rcases f.tables.dropVMLocked_vmsByName key n with hsame | ⟨-, u, w, hu, hname, hw, haddr⟩
  · rw [hsame, hr] at hnone
    cases hnone
  · rw [hr] at hw
    cases hw
    exact ⟨u, hu, (known_inj (hf.bound _ _ hu) (hf.named _ _ hr).1 haddr.symm).1, hname⟩

theorem moves_forgetPod (hf : f.Sound)
    (hgone : ∀ r, f.tables.vmsByPod.get key = some r → f.live.has r.id = false) :
    f.Moves (f.tables.forgetPod key) := by
  constructor
  · intro k r hr
    exact Or.inl (untrackLocked_bound hr)
  · intro n r hr
    exact Or.inl (untrackLocked_named hr)
  · intro n r hr hnone
    obtain ⟨u, hu, hid, -⟩ := hf.dropVM_cases hr hnone
    rw [← hid]
    exact hgone u hu
  · exact untrackLocked_nextAddr _ _

theorem moves_dropStaleIndex (hf : f.Sound) (hv : f.Known v) (hgone : f.live.has v.id = false)
    (name : String) : f.Moves (f.tables.dropStaleIndex name v) := by
  unfold dropStaleIndex
  split
  next hany =>
    obtain ⟨u, hu, haddr⟩ := (Option.any_eq_true _ _).mp hany
    constructor
    · intro k r hr
      exact Or.inl hr
    · intro n r hr
      rw [GoMap.get_del] at hr
      split at hr
      · cases hr
      · exact Or.inl hr
    · intro n r hr hnone
      rw [GoMap.get_del] at hnone
      split at hnone
      next hn =>
        rw [hn, hu] at hr
        cases hr
        rw [(known_inj (hf.named _ _ hu).1 hv (by simpa using haddr)).1]
        exact hgone
      next =>
        rw [hr] at hnone
        cases hnone
    · rfl
  next => exact .of_eq rfl rfl rfl

/- The key is given up, and the VM that was passed is left in the name index. -/
theorem moves_untracked (hf : f.Sound) (hv : f.Known v) (hmay : f.MayIndex v)
    (hbound : ∀ r, f.tables.vmsByPod.get key = some r → f.live.has r.id = true → v.id = r.id) :
    f.Moves ((f.tables.untrackLocked key).indexOrphanByNameLocked v) := by
  constructor
  · intro k r hr
    rw [indexOrphanByNameLocked_vmsByPod] at hr
    exact Or.inl (untrackLocked_bound hr)
  · intro n r hr
    rw [indexOrphanByNameLocked_vmsByName] at hr
    split at hr
    next hn =>
      cases hr
      exact Or.inr ⟨hn.1, hn.1 ▸ hn.2, hv, hmay⟩
    next => exact Or.inl (untrackLocked_named hr)
  · intro n r hr hnone
    rw [indexOrphanByNameLocked_vmsByName] at hnone
    split at hnone
    next => cases hnone
    next hother =>
      obtain ⟨u, hu, hid, hname⟩ := hf.dropVM_cases hr hnone
      by_contra hlive
      have hlive : f.live.has u.id = true := by
        rw [hid]
        simpa using hlive
      -- the VM that was dropped is the one that was passed, so its name has been written again
      have hvn : v.name = n := (hf.name_of_id hv (hf.bound _ _ hu) (hbound u hu hlive) hlive).trans hname
      exact hother ⟨hvn.symm, hvn ▸ (hf.named _ _ hr).2.2⟩
  · obtain ⟨names, h⟩ := (f.tables.untrackLocked key).indexOrphanByNameLocked_eq v
    rw [h]
    exact untrackLocked_nextAddr _ _

theorem moves_detachIncarnation (hf : f.Sound) {w : Option VM} (hw : ∀ v, w = some v → f.Known v)
    (hmay : ∀ v ∈ w, f.MayIndex v) (hdet : f.MayDetach key uid w) :
    f.Moves (f.tables.detachIncarnation key uid w).1 := by
  unfold detachIncarnation
  split
  · exact .of_eq rfl rfl rfl
  · rcases f.tables.untrackIncarnationLocked_cases key uid with h | ⟨hm, h⟩
    · rw [h]
      cases w with
      | none => exact .of_eq rfl rfl rfl
      | some v =>
        dsimp only [indexDetached]
        split
        · exact .of_eq rfl rfl rfl
        · exact moves_index (hw v rfl) (hmay v rfl)
    · rw [h]
      cases w with
      | none =>
        refine moves_forgetPod hf fun r hr => ?_
        by_contra hlive
        cases hdet hm r hr (by simpa using hlive)
      | some v =>
        have hfree : (f.tables.untrackLocked key).vmsByPod.get key = none := by
          rw [untrackLocked_vmsByPod, if_pos rfl]
        dsimp only
        rw [indexDetached_of_free _ _ _ hfree]
        exact moves_untracked hf (hw v rfl) (hmay v rfl) fun r hr hlive =>
          Option.some.inj (hdet hm r hr hlive)

end Sections

/-! ### The runtime and the records -/

section Runtime
variable {f f' : Fleet} {v : VM}

theorem Sound.next_fresh (hf : f.Sound) (a : ℕ) (e : VMID × String) (he : f.made.get a = some e) :
    a ≠ f.tables.nextAddr := Nat.ne_of_lt (hf.fresh a e he)

theorem known_alloc (f : Fleet) (v : VM) : (f.alloc v).Known { v with addr := f.tables.nextAddr } :=
  GoMap.get_set_self _ _ _

theorem Sound.known_of_alloc (hf : f.Sound) (v : VM) {u : VM} (hu : f.Known u) : (f.alloc v).Known u :=
  (GoMap.get_set_ne _ _ (hf.next_fresh _ _ hu)).trans hu

theorem alloc_onto (hf : f.Sound) (v : VM) : f.Onto (f.alloc v) :=
  ⟨fun _ hu => hf.known_of_alloc v hu, fun _ _ h => h, fun _ _ _ h => h, fun _ r _ h => ⟨r, h, rfl⟩⟩

theorem alloc_sound (hf : f.Sound) (hname : ∀ m, f.live.names.get v.id = some m → m = v.name) :
    (f.alloc v).Sound := by
  constructor
  · intro k r hr
    exact hf.known_of_alloc v (hf.bound k r hr)
  · intro n r hr
    exact ⟨hf.known_of_alloc v (hf.named n r hr).1, (hf.named n r hr).2⟩
  · intro a e he
    have he : (f.made.set f.tables.nextAddr (v.id, v.name)).get a = some e := he
    change a < f.tables.nextAddr + 1
    rw [GoMap.get_set] at he
    split at he
    next ha => omega
    next => exact Nat.lt_succ_of_lt (hf.fresh a e he)
  · intro a id n m he hm
    have he : (f.made.set f.tables.nextAddr (v.id, v.name)).get a = some (id, n) := he
    rw [GoMap.get_set] at he
    split at he
    next =>
      cases he
      exact hname m hm
    next => exact hf.names a id n m he hm

theorem launch_eq (h : f.launch v = some f') : ∃ hfree : f.live.Free v,
    f' = { f with live := f.live.add v hfree } ∧ ∀ u, f.Known u → u.id ≠ v.id := by
  unfold launch at h
  split at h
  next hfree =>
    cases h
    exact ⟨hfree.1, rfl, fun u hu => hfree.2 _ ((GoMap.mem_toList _ _ _).mpr hu)⟩
  next => cases h

theorem launch_sound (hf : f.Sound) (h : f.launch v = some f') : f'.Sound := by
  obtain ⟨hfree, rfl, hne⟩ := launch_eq h
  refine ⟨hf.bound, hf.named, hf.fresh, fun a id n m he hm => ?_⟩
  have hid : id ≠ v.id := hne ⟨a, id, n, "", .running, "", "", 0, []⟩ he
  have hm : (f.live.names.set v.id v.name).get id = some m := hm
  rw [GoMap.get_set_ne _ _ hid] at hm
  exact hf.names a id n m he hm

theorem launch_onto (h : f.launch v = some f') : f.Onto f' := by
  obtain ⟨hfree, rfl, hne⟩ := launch_eq h
  refine ⟨fun _ hu => hu, fun u hu hgone => ?_, fun _ _ _ hi => hi, fun _ r _ hr => ⟨r, hr, rfl⟩⟩
  have hget : (f.live.names.set v.id v.name).get u.id = f.live.names.get u.id :=
    GoMap.get_set_ne _ _ (hne u hu)
  exact (GoMap.not_has_iff _ _).mpr (hget.trans ((GoMap.not_has_iff _ _).mp hgone))

theorem launch_name (h : f.launch v = some f') (m : String)
    (hm : f'.live.names.get v.id = some m) : m = v.name := by
  obtain ⟨hfree, rfl, -⟩ := launch_eq h
  have hself : (f.live.names.set v.id v.name).get v.id = some v.name := GoMap.get_set_self _ _ _
  exact Option.some.inj (hm.symm.trans hself)

theorem remove_sound (hf : f.Sound) (id : VMID) : Sound { f with live := f.live.remove id } := by
  refine ⟨hf.bound, hf.named, hf.fresh, fun a i n m he hm => ?_⟩
  have hm : (f.live.names.del id).get i = some m := hm
  rw [GoMap.get_del] at hm
  split at hm
  · cases hm
  · exact hf.names a i n m he hm

theorem remove_gone (l : LiveVMs) (id i : VMID) (h : i = id ∨ l.has i = false) :
    (l.remove id).has i = false := by
  refine (GoMap.not_has_iff _ _).mpr ((GoMap.get_del _ _ _).trans ?_)
  split
  next => rfl
  next hne => exact (GoMap.not_has_iff _ _).mp (h.resolve_left hne)

theorem remove_onto (f : Fleet) (id : VMID) : f.Onto { f with live := f.live.remove id } :=
  ⟨fun _ hu => hu, fun u _ h => remove_gone f.live id u.id (Or.inr h), fun _ _ _ hi => hi,
    fun _ r _ hr => ⟨r, hr, rfl⟩⟩

theorem VMMutation_apply_name (m : VMMutation) (v : VM) : (m.apply v).name = v.name := by
  cases m with
  | ip a => rfl
  | restarted pid ncs => rfl
  | rolledBackNIC fresh => cases fresh <;> rfl
  | macosRecord pid mac ncs => rfl

/- A copy of the tracked record is a new record of the same VM. -/
theorem updateTrackedVM_cases (f : Fleet) (key : Key) (vmID : VMID) (m : VMMutation) :
    f.updateTrackedVM key vmID m = f ∨
    ∃ v u, f.tables.vmsByPod.get key = some v ∧ u.id = v.id ∧ u.name = v.name ∧
      u.addr = f.tables.nextAddr ∧ (f.tables.updateTrackedVM key vmID m).2 = some u ∧
      f.updateTrackedVM key vmID m = (f.alloc u).onTables (·.setVMLocked key u) := by
  unfold updateTrackedVM Tables.updateTrackedVM
  cases hv : f.tables.vmsByPod.get key with
  | none => exact Or.inl rfl
  | some v =>
    by_cases hid : (v.id != vmID) = true
    · left
      simp only [hid, if_true]
    · simp only [hid, Bool.false_eq_true, if_false]
      exact Or.inr ⟨v, { m.apply v with addr := f.tables.nextAddr }, rfl, VMMutation_apply_id m v,
        VMMutation_apply_name m v, rfl, rfl, rfl⟩

theorem updateTrackedVM_keeps (hf : f.Sound) {key : Key} {vmID : VMID} {m : VMMutation}
    (hmay : ∀ v ∈ (f.tables.updateTrackedVM key vmID m).2, f.MayIndex v) :
    (f.updateTrackedVM key vmID m).Sound ∧ f.Onto (f.updateTrackedVM key vmID m) := by
  rcases f.updateTrackedVM_cases key vmID m with h | ⟨v, u, hv, hid, hname, haddr, hu, h⟩
  · rw [h]
    exact ⟨hf, .refl f⟩
  · have hmade : (f.alloc u).Sound := by
      refine alloc_sound hf fun n hn => ?_
      rw [hname]
      rw [hid] at hn
      exact hf.names _ _ _ _ (hf.bound _ _ hv) hn
    have hknown : (f.alloc u).Known u := by
      have := known_alloc f u
      rwa [← haddr] at this
    have hmoves : (f.alloc u).Moves ((f.alloc u).tables.setVMLocked key u) :=
      moves_setVM rfl rfl rfl hknown (hmay u hu) fun _ => ⟨v, hv, hid.symm⟩
    rw [h]
    exact ⟨hmoves.sound hmade, (alloc_onto hf u).trans (hmoves.onto hmade) rfl⟩

end Runtime
end Fleet

end VkCocoon
