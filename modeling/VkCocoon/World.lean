import VkCocoon.Ops

/-!
# The provider together with what it drives

The tables, the cocoon runtime, the local snapshots, the hibernate tags of the
registry, the pods of the apiserver and the DHCP leases. An external call can
succeed, fail without effect, or fail after its effect took place; which of them
happens is the `Reply`, an input of every step.
-/

namespace VkCocoon
open Lib Tables

/-- A snapshot: `serial` tells two saves apart, `vm` is the VM it was saved from. -/
structure Snap where
  serial : ℕ
  vm : VMID
deriving DecidableEq, Repr

structure World where
  tables : Tables
  runtime : GoMap VMID VM
  localSnapshots : GoMap String Snap
  /-- what `repo:hibernate` names -/
  hibernateTags : GoMap String Snap
  nextSnap : ℕ
  apiPods : GoMap Key UID
  leases : GoMap String String
  /-- `lifecycleCtx` is canceled -/
  closed : Bool
  hasPusher : Bool
  hasRegistry : Bool

inductive Reply where
  | ok
  | failed (err : String)
  | failedAfter (err : String)
  /-- the name is taken: another incarnation owns it at the apiserver, another snapshot in the store -/
  | nameTaken
deriving DecidableEq, Repr

def Reply.err : Reply → Option String
  | .ok => none
  | .failed e | .failedAfter e => some e
  | .nameTaken => some "name taken"

/-- Whether the call took effect. -/
def Reply.lands : Reply → Bool
  | .ok | .failedAfter _ => true
  | _ => false

namespace World

/-- `Runtime.SnapshotSave`, which removes a snapshot that holds the name and saves again; under
`nameTaken` that second save fails. A VM that is not there cannot be saved. -/
def snapshotSave (w : World) (name : String) (id : VMID) (r : Reply) : World × Option String :=
  if r = .nameTaken then ({ w with localSnapshots := w.localSnapshots.del name }, r.err)
  else if w.runtime.has id then
    (if r.lands then
        { w with
          localSnapshots := w.localSnapshots.set name ⟨w.nextSnap, id⟩
          nextSnap := w.nextSnap + 1 }
      else w, r.err)
  else (w, some "vm not found")

/-- `Pusher.PushSnapshot` to the hibernate tag of `repo`. -/
def pushSnapshot (w : World) (localName repo : String) (r : Reply) : World × Option String :=
  match w.localSnapshots.get localName with
  | none => (w, some "snapshot not found")
  | some snap =>
    (if r.lands then { w with hibernateTags := w.hibernateTags.set repo snap } else w, r.err)

/-- `Registry.DeleteManifest` of the hibernate tag. -/
def deleteManifest (w : World) (repo : String) (r : Reply) : World × Option String :=
  (if r.lands then { w with hibernateTags := w.hibernateTags.del repo } else w, r.err)

/-- `Runtime.Remove` as `removeVM` reads it: `ErrVMNotFound` is not an error there. -/
def remove (w : World) (id : VMID) (r : Reply) : World × Option String :=
  (if r.lands then { w with runtime := w.runtime.del id } else w, r.err)

/-- `Runtime.NetResize` to the NICs `nics`. -/
def netResize (w : World) (id : VMID) (nics : List NetworkConfig) (r : Reply) :
    World × Option String :=
  match w.runtime.get id with
  | none => (w, some "vm not found")
  | some v =>
    (if r.lands then
        { w with
          runtime := w.runtime.set id
            { v with networkConfigs := nics, mac := (nics.head?.map (·.mac)).getD "" } }
      else w, r.err)

inductive Inspected where
  | found (v : VM)
  | notFound
  | inconclusive (err : String)
deriving DecidableEq, Repr

/-- `Runtime.Inspect`: an answer is authoritative, an error says nothing. -/
def inspect (w : World) (id : VMID) (r : Reply) : Inspected :=
  match r.err with
  | some e => .inconclusive e
  | none =>
    match w.runtime.get id with
    | none => .notFound
    | some v => .found v

/-- `Runtime.Start` -/
def start (w : World) (id : VMID) (r : Reply) : World × Option String :=
  match w.runtime.get id with
  | none => (w, some "vm not found")
  | some v =>
    (if r.lands then { w with runtime := w.runtime.set id { v with state := .running } } else w,
      r.err)

inductive Deleted where
  | ok
  | conflict
  | failed
deriving DecidableEq, Repr

/-- One `Delete` of `deletePodWithRetry`, with the UID as a precondition; `IsNotFound` is a
success there. -/
def deletePod (w : World) (key : Key) (uid : UID) (r : Reply) : World × Deleted :=
  if r.err.isSome then
    (if r.lands && w.apiPods.get key == some uid then { w with apiPods := w.apiPods.del key } else w,
      .failed)
  else
    match w.apiPods.get key with
    | none => (w, .ok)
    | some owner =>
      if owner = uid then ({ w with apiPods := w.apiPods.del key }, .ok) else (w, .conflict)

/-- `dhcpMACs` -/
def dhcpMACs (v : VM) : List String :=
  if v.networkConfigs.isEmpty then if v.mac == "" then [] else [v.mac]
  else (v.networkConfigs.filter fun nic => nic.mac != "" && !isStaticNIC nic).map (·.mac)

/-- `releaseDHCPLeases`, when the releaser answers. -/
def releaseDHCPLeases (w : World) (v : VM) : World :=
  { w with leases := (dhcpMACs v).foldl GoMap.del w.leases }

def onTables (w : World) (f : Tables → Tables) : World := { w with tables := f w.tables }

/- The calls to the outside do not touch the tables. -/

variable (w : World) (id : VMID) (name : String) (r : Reply)

@[simp] theorem snapshotSave_tables : (w.snapshotSave name id r).1.tables = w.tables := by
  unfold snapshotSave
  repeat' split
  all_goals rfl

theorem snapshotSave_runtime : (w.snapshotSave name id r).1.runtime = w.runtime := by
  unfold snapshotSave
  repeat' split
  all_goals rfl

@[simp] theorem pushSnapshot_tables (repo : String) :
    (w.pushSnapshot name repo r).1.tables = w.tables := by
  unfold pushSnapshot
  repeat' split
  all_goals rfl

@[simp] theorem deleteManifest_tables : (w.deleteManifest name r).1.tables = w.tables := by
  unfold deleteManifest
  split <;> rfl

@[simp] theorem remove_tables : (w.remove id r).1.tables = w.tables := by
  unfold remove
  split <;> rfl

@[simp] theorem netResize_tables (nics : List NetworkConfig) :
    (w.netResize id nics r).1.tables = w.tables := by
  unfold netResize
  repeat' split
  all_goals rfl

@[simp] theorem start_tables : (w.start id r).1.tables = w.tables := by
  unfold start
  repeat' split
  all_goals rfl

@[simp] theorem deletePod_tables (key : Key) (uid : UID) :
    (w.deletePod key uid r).1.tables = w.tables := by
  unfold deletePod
  repeat' split
  all_goals rfl

@[simp] theorem onTables_tables (f : Tables → Tables) :
    (w.onTables f).tables = f w.tables := rfl

section Inspect
variable {w id r}

theorem inspect_notFound (h : w.inspect id r = .notFound) : w.runtime.has id = false := by
  unfold inspect at h
  split at h
  · cases h
  · split at h
    next hn => exact (GoMap.not_has_iff _ _).mpr hn
    next => cases h

theorem inspect_found {v : VM} (h : w.inspect id r = .found v) : w.runtime.get id = some v := by
  unfold inspect at h
  split at h
  · cases h
  · split at h
    next => cases h
    next hv =>
      cases h
      exact hv

end Inspect
end World

def sampleWorld : World where
  tables := Tables.new.trackPodLocked samplePod (some sampleVM)
  runtime := GoMap.empty.set "vm1" sampleVM
  localSnapshots := .empty
  hibernateTags := .empty
  nextSnap := 0
  apiPods := GoMap.empty.set "ns/a" "u"
  leases := .empty
  closed := false
  hasPusher := true
  hasRegistry := true

end VkCocoon
