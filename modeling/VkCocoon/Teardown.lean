import Mathlib.Data.List.Infix
import VkCocoon.Create
import VkCocoon.Node

/-!
# DeletePod from its claim to its return

`deletePod` and `deleteMacosPod` as procedures over the calls they make: the sections of the tables,
the runtime, the pusher, the lease releaser and `cocoon-macos`. Each call but a section may fail,
before or after its effect.
-/

namespace VkCocoon
open Lib Tables

/-- The part of `macosVMRecord` that `applyMacosRecord` reads. -/
structure MacosVMRecord where
  pid : ℤ
  mac : String
  tap : String
deriving DecidableEq, Repr

/-- A failed run of the `cocoon-macos` binary: its error and its output. -/
structure MacosFailure where
  err : String
  out : String
deriving DecidableEq, Repr

/-- `strings.Contains(s, sub)` -/
def containsText (s sub : String) : Bool := decide (sub.toList <:+: s.toList)

def macosVMMissing (out : String) : Bool :=
  containsText (toLower out) "not found" || containsText (toLower out) "no such"

def applyMacosRecord (v : VM) : Option MacosVMRecord → VM
  | none => v
  | some rec =>
    { v with
      pid := rec.pid
      mac := rec.mac
      networkConfigs := if rec.tap != "" then [⟨rec.mac, none⟩] else v.networkConfigs }

def errDeleteKeptVM : String := "vm kept for the delete retry"

inductive DeleteCall where
  | claimDeleting (key : Key) (uid : UID)
  | finishDeleting (key : Key)
  | forgetPod (key : Key)
  /-- the read of `resumedOps` in `backoffIfResuming` -/
  | resuming (key : Key)
  | vmForPod (key : Key)
  | inspect (id : VMID)
  | snapshotSave (localName : String) (id : VMID)
  | pushSnapshot (localName repo tag image : String)
  | remove (id : VMID)
  | releaseByMAC (mac : String)
  | snapshotRemoveIfExists (name : String)
  | macosInspect (vmName : String)
  /-- `cocoon-macos vm rm` -/
  | macosRm (vmName : String)
deriving DecidableEq, Repr

abbrev DeleteAns : DeleteCall → Type
  | .claimDeleting _ _ => DeleteClaim
  | .finishDeleting _ | .forgetPod _ => Unit
  | .resuming _ => Bool
  | .vmForPod _ => Option VM
  | .inspect _ => Except CallError VM
  | .snapshotSave _ _ | .pushSnapshot _ _ _ _ | .remove _ | .releaseByMAC _
  | .snapshotRemoveIfExists _ => Except CallError Unit
  | .macosInspect _ => Option MacosVMRecord
  | .macosRm _ => Except MacosFailure Unit

/-- The calls whose errors are only counted. -/
def DeleteCall.isCleanup : DeleteCall → Bool
  | .releaseByMAC _ | .snapshotRemoveIfExists _ => true
  | _ => false

abbrev DeleteCode := Proc DeleteCall DeleteAns

/-- What the provider was configured with, and the annotations of the pod that a delete reads. -/
structure DeletePolicy where
  hasPusher : Bool
  hasReleaser : Bool
  /-- `meta.ReadKeepSnapshotOnDelete` -/
  keepSnapshots : Bool
  /-- `meta.ShouldSnapshotVM` -/
  shouldSnapshot : Bool
  /-- `spec.Image` -/
  image : String
  /-- `meta.DefaultSnapshotTag` -/
  defaultSnapshotTag : String
deriving DecidableEq, Repr

/-- A return of nil, by the reason it is counted under. -/
inductive DeleteExit where
  | superseded
  | unmanaged
  | noVM
  | seatRelease
  | ok
deriving DecidableEq, Repr

namespace Teardown

def ask (q : DeleteCall) : DeleteCode (DeleteAns q) := Proc.ask q

section Code
variable (d : DeletePolicy)

def saveAndPush (id : VMID) (localName repo tag image : String) : DeleteCode (Except String Unit) := do
  match ← ask (.snapshotSave localName id) with
  | .error e => return .error s!"save snapshot {localName}: {e.text}"
  | .ok _ =>
    match ← ask (.pushSnapshot localName repo tag image) with
    | .error e => return .error s!"push snapshot {localName}: {e.text}"
    | .ok _ => return .ok ()

def saveAndPushSnapshot (v : VM) (tag image : String) : DeleteCode (Except String Unit) := do
  match ← ask (.inspect v.id) with
  | .error e => if e.notFound then return .ok () else return .error s!"inspect vm {v.id}: {e.text}"
  | .ok current =>
    if current.state != .running then return .ok () else saveAndPush v.id v.name "" tag image

def releaseByMACs : List String → DeleteCode Unit
  | [] => pure ()
  | mac :: macs => do
    -- the VM is gone already, an error is only counted
    let _ ← ask (.releaseByMAC mac)
    releaseByMACs macs

def releaseDHCPLeases (v : VM) : DeleteCode Unit :=
  if d.hasReleaser then releaseByMACs (World.dhcpMACs v) else pure ()

def removeVM (v : VM) : DeleteCode (Except String Unit) := do
  match ← ask (.remove v.id) with
  | .error e =>
    if e.notFound then
      releaseDHCPLeases d v
      return .ok ()
    else return .error e.text
  | .ok _ =>
    releaseDHCPLeases d v
    return .ok ()

def removeLocalSnapshots (vmName : String) : DeleteCode Unit := do
  if vmName == "" then return ()
  else
    let _ ← ask (.snapshotRemoveIfExists vmName)
    let _ ← ask (.snapshotRemoveIfExists (forkSnapshotName vmName))
    return ()

/-- The name `cocoon-macos` knows the guest by. -/
def macosName (pod : Pod) : Option VM → String
  | some v => if v.name != "" then v.name else pod.spec.vmName
  | none => pod.spec.vmName

/-- The record whose leases are released. -/
def macosLeaseRecord (vmName : String) : Option VM → DeleteCode VM
  | some v => pure v
  | none => do
    let rec ← ask (.macosInspect vmName)
    return applyMacosRecord ⟨0, macosVMID vmName, "", "", .other "", "", "", 0, []⟩ rec

def deleteMacosPod (pod : Pod) : DeleteCode (Except String DeleteExit) := do
  let v ← ask (.vmForPod pod.key)
  let vmName := macosName pod v
  if vmName == "" then
    ask (.forgetPod pod.key)
    return .ok .noVM
  else
    let v ← macosLeaseRecord vmName v
    match ← ask (.macosRm vmName) with
    | .error f =>
      if macosVMMissing f.out then
        releaseDHCPLeases d v
        ask (.forgetPod pod.key)
        return .ok .ok
      else
        return .error s!"{errDeleteKeptVM}: cocoon-macos vm rm {vmName}: {f.err}: {trimSpace f.out}"
    | .ok _ =>
      releaseDHCPLeases d v
      ask (.forgetPod pod.key)
      return .ok .ok

def snapshotOwed (v : VM) : Bool := d.shouldSnapshot && d.hasPusher && v.name != ""

def snapshotBeforeDelete (v : VM) : DeleteCode (Except String Unit) :=
  if snapshotOwed d v then saveAndPushSnapshot v d.defaultSnapshotTag d.image else pure (.ok ())

def dropSnapshots (vmName : String) : DeleteCode Unit :=
  if d.keepSnapshots then pure () else removeLocalSnapshots vmName

/-- `deletePod` of a bound VM whose snapshot is taken care of. -/
def removeBound (pod : Pod) (v : VM) : DeleteCode (Except String DeleteExit) := do
  match ← removeVM d v with
  | .error e => return .error s!"{errDeleteKeptVM}: remove vm {v.id}: {e}"
  | .ok _ =>
    dropSnapshots d v.name
    ask (.forgetPod pod.key)
    return .ok .ok

/-- `deletePod` once a VM is bound. -/
def deleteBound (pod : Pod) (v : VM) : DeleteCode (Except String DeleteExit) := do
  match ← snapshotBeforeDelete d v with
  | .error e => return .error s!"{errDeleteKeptVM}: snapshot vm {v.id} before delete: {e}"
  | .ok _ => removeBound d pod v

/-- `deletePod` by the kind of the pod. -/
def deleteByKind (pod : Pod) : DeleteCode (Except String DeleteExit) := do
  if isMacosSpec pod.spec then deleteMacosPod d pod
  else if !pod.spec.managed then
    ask (.forgetPod pod.key)
    return .ok .unmanaged
  else
    match ← ask (.vmForPod pod.key) with
    | none =>
      dropSnapshots d pod.spec.vmName
      ask (.forgetPod pod.key)
      return .ok (if d.keepSnapshots then .seatRelease else .noVM)
    | some v => deleteBound d pod v

/-- `deletePod` between its claim and the deferred `finishDeleting`. -/
def deleteClaimed (pod : Pod) : DeleteCode (Except String DeleteExit) := do
  if ← ask (.resuming pod.key) then
    return .error s!"resumed operation still in flight for {pod.key}"
  else deleteByKind d pod

def deletePod (pod : Pod) : DeleteCode (Except String DeleteExit) := do
  match ← ask (.claimDeleting pod.key pod.uid) with
  | .superseded => return .ok .superseded
  | .inFlight => return .error s!"delete operation still in flight for pod {pod.key}"
  | .claimed =>
    let r ← deleteClaimed d pod
    ask (.finishDeleting pod.key)
    return r

end Code

/-! ### The surroundings -/

/-- What the call did to a VM, the last thing first. -/
inductive Note where
  | saved (localName : String) (id : VMID)
  | pushed (localName repo tag : String)
  /-- `Runtime.Remove`, and what the runtime had under the ID then -/
  | removed (id : VMID) (found : Option VM)
deriving DecidableEq, Repr

structure State where
  world : World
  /-- the guests of `cocoon-macos`, by name -/
  guests : GoMap String MacosVMRecord
  notes : List Note

namespace State

def onTables (s : State) (f : Tables → Tables) : State := { s with world := s.world.onTables f }

def note (s : State) (n : Note) : State := { s with notes := n :: s.notes }

end State

/-- Whether a call took effect: an error may come before it or after it. -/
def Landed {ε α : Type} (lands : Bool) : Except ε α → Prop
  | .ok _ => lands = true
  | .error _ => True

/-- The answers of the surroundings. What an inspect says is so, and so is what the two removals say
of a VM that is missing. -/
def Answers : Proc.Answers State DeleteCall DeleteAns
  | s, .claimDeleting key uid => fun r s' =>
    r = (s.world.tables.claimDeleting key uid).2 ∧
      s' = s.onTables fun t => (t.claimDeleting key uid).1
  | s, .finishDeleting key => fun _ s' => s' = s.onTables (·.finishDeleting key)
  | s, .forgetPod key => fun _ s' => s' = s.onTables (·.forgetPod key)
  | s, .resuming key => fun r s' => r = s.world.tables.resumedOps.has key ∧ s' = s
  | s, .vmForPod key => fun r s' => r = s.world.tables.vmsByPod.get key ∧ s' = s
  | s, .inspect id => fun r s' =>
    s' = s ∧
      match r with
      | .ok current => s.world.runtime.get id = some current
      | .error e => e.notFound = true → s.world.runtime.get id = none
  | s, .snapshotSave localName id => fun r s' =>
    (∀ u, r = .ok u → s.world.runtime.has id = true) ∧
      ∃ snaps next, s' =
        { s with
          world := { s.world with localSnapshots := snaps, nextSnap := next }
          notes := match r with
            | .ok _ => .saved localName id :: s.notes
            | .error _ => s.notes }
  | s, .pushSnapshot localName repo tag _ => fun r s' =>
    s' = match r with
      | .ok _ => s.note (.pushed localName repo tag)
      | .error _ => s
  | s, .remove id => fun r s' =>
    ∃ lands, Landed lands r ∧
      s' =
        { s with
          world := { s.world with
            runtime := if lands then s.world.runtime.del id else s.world.runtime }
          notes := .removed id (s.world.runtime.get id) :: s.notes } ∧
      ∀ e, r = .error e → e.notFound = true → s.world.runtime.get id = none
  | s, .releaseByMAC mac => fun r s' =>
    ∃ lands, Landed lands r ∧
      s' = { s with world := { s.world with
        leases := if lands then s.world.leases.del mac else s.world.leases } }
  | s, .snapshotRemoveIfExists name => fun r s' =>
    ∃ lands, Landed lands r ∧
      s' = { s with world := { s.world with
        localSnapshots := if lands then s.world.localSnapshots.del name
          else s.world.localSnapshots } }
  | s, .macosInspect vmName => fun r s' => s' = s ∧ ∀ rec, r = some rec → s.guests.get vmName = some rec
  | s, .macosRm vmName => fun r s' =>
    ∃ lands, Landed lands r ∧
      s' = { s with guests := if lands then s.guests.del vmName else s.guests } ∧
      ∀ f, r = .error f → macosVMMissing f.out = true → s.guests.get vmName = none

/-! ### What a delete is to do -/

/-- The VM of the record is in no backend. A guest is known to `cocoon-macos` by its name, so a record
without one stands for no guest. -/
def State.Gone (s : State) (v : VM) : Prop :=
  if isMacosVM v then v.name = "" ∨ s.guests.get v.name = none else s.world.runtime.get v.id = none

/-- The record is of the backend that the OS of the pod names. -/
def OfKind (pod : Pod) (v : VM) : Prop := isMacosVM v = isMacosSpec pod.spec

/-- Whether the VM `v` may be removed, by what the call did before. -/
def MayRemove (d : DeletePolicy) (v : VM) (found : Option VM) (earlier : List Note) : Prop :=
  snapshotOwed d v = false ∨ (∀ current, found = some current → current.state ≠ .running) ∨
    .saved v.name v.id ∈ earlier ∧ .pushed v.name "" d.defaultSnapshotTag ∈ earlier

/-- Every removal of a VM was of the bound one, and it might be removed. -/
def RemovesOwed (d : DeletePolicy) (bound : Option VM) (notes : List Note) : Prop :=
  ∀ id found earlier, Note.removed id found :: earlier <:+ notes →
    ∃ v, bound = some v ∧ v.id = id ∧ MayRemove d v found earlier

/-- The entries that a delete is to keep or to drop. -/
structure SameEntries (t t' : Tables) (key : Key) : Prop where
  pods : t'.pods = t.pods
  vmsByPod : t'.vmsByPod = t.vmsByPod
  lifecycleIntent : t'.lifecycleIntent = t.lifecycleIntent
  opRetries : t'.opRetries = t.opRetries
  macosVNC : t'.macosVNC = t.macosVNC
  deleting : t'.deletingLocked key = t.deletingLocked key

structure NoEntries (t : Tables) (key : Key) : Prop where
  pods : t.pods.has key = false
  vmsByPod : t.vmsByPod.has key = false
  lifecycleIntent : t.lifecycleIntent.has key = false
  opRetries : t.opRetries.has key = false
  macosVNC : t.macosVNC.has key = false
  deleting : t.deleting.has key = false

structure AllOrNothing (d : DeletePolicy) (pod : Pod) (s s' : State) (r : Except String DeleteExit) :
    Prop where
  kept : ∀ e, r = .error e → SameEntries s.world.tables s'.world.tables pod.key
  removes : RemovesOwed d (s.world.tables.vmsByPod.get pod.key) s'.notes
  forgotten : ∀ x, r = .ok x → x ≠ .superseded → NoEntries s'.world.tables pod.key
  gone : ∀ x, r = .ok x → x ≠ .superseded → pod.spec.managed = true →
    ∀ v, s.world.tables.vmsByPod.get pod.key = some v → OfKind pod v → s'.Gone v

/-! ### The parts -/

section Parts
variable {d : DeletePolicy} {pod : Pod} {v : VM} {s : State}

/-- The cleanup of leases and snapshots leaves what the rest of the call reads. -/
structure Cleaned (s s' : State) : Prop where
  tables : s'.world.tables = s.world.tables
  runtime : s'.world.runtime = s.world.runtime
  guests : s'.guests = s.guests
  notes : s'.notes = s.notes

theorem Cleaned.refl (s : State) : Cleaned s s := ⟨rfl, rfl, rfl, rfl⟩

theorem Cleaned.answer {s s₁ s₂ : State} {q : DeleteCall} {r : DeleteAns q} (hq : q.isCleanup = true)
    (h : Cleaned s s₁) (hr : Answers s₁ q r s₂) : Cleaned s s₂ := by
  cases q with
  | releaseByMAC mac | snapshotRemoveIfExists name =>
    obtain ⟨lands, -, rfl⟩ := hr
    exact ⟨h.tables, h.runtime, h.guests, h.notes⟩
  | _ => cases hq

theorem cleanup_wp {α : Type} {p : DeleteCode α} (hp : p.Only fun q => q.isCleanup = true) :
    p.wp Answers (fun s' _ => Cleaned s s') s :=
  hp.wp (fun _ _ _ _ hq h hr => h.answer hq hr) (Cleaned.refl s)

theorem releaseByMACs_only (macs : List String) :
    (releaseByMACs macs).Only fun q => q.isCleanup = true := by
  induction macs with
  | nil => trivial
  | cons mac macs ih => exact Proc.only_bind (Proc.only_ask rfl) fun _ => ih

theorem releaseDHCPLeases_only (d : DeletePolicy) (v : VM) :
    (releaseDHCPLeases d v).Only fun q => q.isCleanup = true := by
  unfold releaseDHCPLeases
  split
  · exact releaseByMACs_only _
  · trivial

theorem removeLocalSnapshots_only (vmName : String) :
    (removeLocalSnapshots vmName).Only fun q => q.isCleanup = true := by
  unfold removeLocalSnapshots
  split
  · trivial
  · exact Proc.only_bind (Proc.only_ask rfl) fun _ => Proc.only_bind (Proc.only_ask rfl) fun _ => trivial

theorem dropSnapshots_only (d : DeletePolicy) (vmName : String) :
    (dropSnapshots d vmName).Only fun q => q.isCleanup = true := by
  unfold dropSnapshots
  split
  · trivial
  · exact removeLocalSnapshots_only vmName

/-- The state in which the VM is removed. -/
structure Prepared (d : DeletePolicy) (v : VM) (s s' : State) (r : Except String Unit) : Prop where
  tables : s'.world.tables = s.world.tables
  guests : s'.guests = s.guests
  quiet : ∀ id found, Note.removed id found ∉ s'.notes
  may : ∀ u, r = .ok u → MayRemove d v (s'.world.runtime.get v.id) s'.notes

theorem saveAndPush_wp (hs : s.notes = []) :
    (saveAndPush v.id v.name "" d.defaultSnapshotTag d.image).wp Answers (Prepared d v s) s := by
  unfold saveAndPush
  refine Proc.wp_ask_bind.mpr fun r s₁ hr => ?_
  obtain ⟨-, snaps, next, rfl⟩ := hr
  cases r with
  | error e =>
    refine ⟨rfl, rfl, ?_, fun _ h => by cases h⟩
    rw [hs]
    exact fun _ _ => List.not_mem_nil
  | ok _ =>
    refine Proc.wp_ask_bind.mpr fun r s₂ hr => ?_
    subst hr
    cases r with
    | error e =>
      refine ⟨rfl, rfl, ?_, fun _ h => by cases h⟩
      rw [hs]
      simp
    | ok _ =>
      refine ⟨rfl, rfl, ?_, fun _ _ => Or.inr (Or.inr ⟨?_, ?_⟩)⟩
      · simp [State.note, hs]
      · exact List.mem_cons_of_mem _ List.mem_cons_self
      · exact List.mem_cons_self

theorem saveAndPushSnapshot_wp (hs : s.notes = []) :
    (saveAndPushSnapshot v d.defaultSnapshotTag d.image).wp Answers (Prepared d v s) s := by
  have hquiet : ∀ id found, Note.removed id found ∉ s.notes := by
    rw [hs]
    exact fun _ _ => List.not_mem_nil
  unfold saveAndPushSnapshot
  refine Proc.wp_ask_bind.mpr fun r s₁ hr => ?_
  obtain ⟨rfl, hr⟩ := hr
  cases r with
  | error e =>
    dsimp only at hr ⊢
    split
    next hnf =>
      refine ⟨rfl, rfl, hquiet, fun _ _ => Or.inr (Or.inl ?_)⟩
      rw [hr hnf]
      exact fun _ h => by cases h
    next => exact ⟨rfl, rfl, hquiet, fun _ h => by cases h⟩
  | ok current =>
    dsimp only at hr ⊢
    split
    next hstate =>
      refine ⟨rfl, rfl, hquiet, fun _ _ => Or.inr (Or.inl ?_)⟩
      rw [hr]
      rintro _ ⟨⟩
      simpa using hstate
    next => exact saveAndPush_wp hs

theorem snapshotBeforeDelete_wp (hs : s.notes = []) :
    (snapshotBeforeDelete d v).wp Answers (Prepared d v s) s := by
  unfold snapshotBeforeDelete
  split
  next => exact saveAndPushSnapshot_wp hs
  next howed =>
    refine ⟨rfl, rfl, ?_, fun _ _ => Or.inl (Bool.eq_false_iff.mpr howed)⟩
    rw [hs]
    exact fun _ _ => List.not_mem_nil

structure Removed (v : VM) (s s' : State) (r : Except String Unit) : Prop where
  tables : s'.world.tables = s.world.tables
  guests : s'.guests = s.guests
  notes : s'.notes = .removed v.id (s.world.runtime.get v.id) :: s.notes
  gone : ∀ u, r = .ok u → s'.world.runtime.get v.id = none

theorem removeVM_wp : (removeVM d v).wp Answers (Removed v s) s := by
  unfold removeVM
  refine Proc.wp_ask_bind.mpr fun r s₁ hr => ?_
  obtain ⟨lands, hlands, rfl, hmissing⟩ := hr
  -- the leases are released once the VM is out of the runtime
  have hrelease : (if lands then s.world.runtime.del v.id else s.world.runtime).get v.id = none →
      ((releaseDHCPLeases d v).bind fun _ => pure (.ok ())).wp Answers (Removed v s)
        { s with
          world := { s.world with
            runtime := if lands then s.world.runtime.del v.id else s.world.runtime }
          notes := .removed v.id (s.world.runtime.get v.id) :: s.notes } := by
    intro hnone
    refine Proc.wp_seq (cleanup_wp (releaseDHCPLeases_only d v)) fun s₂ _ hclean => ?_
    refine ⟨hclean.tables, hclean.guests, hclean.notes, fun _ _ => ?_⟩
    rw [hclean.runtime]
    exact hnone
  cases r with
  | error e =>
    dsimp only
    split
    next hnf =>
      refine hrelease ?_
      have hnone := hmissing e rfl hnf
      cases lands with
      | true => exact GoMap.get_del_self _ _
      | false => exact hnone
    next => exact ⟨rfl, rfl, rfl, fun _ h => by cases h⟩
  | ok _ =>
    refine hrelease ?_
    rw [show lands = true from hlands]
    exact GoMap.get_del_self _ _

/-- What happens between the claim and `finishDeleting`. -/
structure Body (d : DeletePolicy) (pod : Pod) (s s' : State) (r : Except String DeleteExit) : Prop where
  kept : ∀ e, r = .error e → s'.world.tables = s.world.tables
  removes : RemovesOwed d (s.world.tables.vmsByPod.get pod.key) s'.notes
  forgotten : ∀ x, r = .ok x → s'.world.tables = s.world.tables.forgetPod pod.key
  gone : ∀ x, r = .ok x → pod.spec.managed = true →
    ∀ v, s.world.tables.vmsByPod.get pod.key = some v → OfKind pod v → s'.Gone v

theorem Body.of_error {s s' : State} {e : String} (ht : s'.world.tables = s.world.tables)
    (hremoves : RemovesOwed d (s.world.tables.vmsByPod.get pod.key) s'.notes) :
    Body d pod s s' (.error e) where
  kept _ _ := ht
  removes := hremoves
  forgotten _ h := by cases h
  gone _ h := by cases h

theorem removesOwed_nil (bound : Option VM) : RemovesOwed d bound [] := by
  intro id found earlier h
  exact absurd (List.suffix_nil.mp h) (List.cons_ne_nil _ _)

theorem removesOwed_of_quiet {bound : Option VM} {notes : List Note}
    (hq : ∀ id found, Note.removed id found ∉ notes) : RemovesOwed d bound notes :=
  fun id found _ h => absurd (h.subset List.mem_cons_self) (hq id found)

theorem removesOwed_removed {notes : List Note} {found : Option VM}
    (hq : ∀ id found, Note.removed id found ∉ notes) (hmay : MayRemove d v found notes) :
    RemovesOwed d (some v) (.removed v.id found :: notes) := by
  intro id found' earlier h
  rcases List.suffix_cons_iff.mp h with heq | hsuf
  · obtain ⟨hnote, rfl⟩ := List.cons.inj heq
    obtain ⟨rfl, rfl⟩ := Note.removed.inj hnote
    exact ⟨v, rfl, rfl, hmay⟩
  · exact absurd (hsuf.subset List.mem_cons_self) (hq id found')

/- The last steps of a delete that succeeds. -/
theorem forget_wp {s s₁ : State} {x : DeleteExit} {p : DeleteCode Unit}
    (hp : p.Only fun q => q.isCleanup = true) (ht : s₁.world.tables = s.world.tables)
    (hremoves : RemovesOwed d (s.world.tables.vmsByPod.get pod.key) s₁.notes)
    (hgone : pod.spec.managed = true →
      ∀ v, s.world.tables.vmsByPod.get pod.key = some v → OfKind pod v → s₁.Gone v) :
    (p >>= fun _ => ask (.forgetPod pod.key) >>= fun _ => pure (.ok x)).wp Answers (Body d pod s) s₁ := by
  refine Proc.wp_seq (cleanup_wp hp) fun s₂ _ hclean => ?_
  refine Proc.wp_ask_bind.mpr fun _ s₃ hr => ?_
  subst hr
  refine ⟨fun _ h => (by cases h), ?_, fun _ _ => ?_, fun _ _ hm v hv hkind => ?_⟩
  · show RemovesOwed d _ s₂.notes
    rw [hclean.notes]
    exact hremoves
  · show s₂.world.tables.forgetPod pod.key = _
    rw [hclean.tables, ht]
  · have hv := hgone hm v hv hkind
    unfold State.Gone at hv ⊢
    show if isMacosVM v then v.name = "" ∨ s₂.guests.get v.name = none
      else s₂.world.runtime.get v.id = none
    rw [hclean.guests, hclean.runtime]
    exact hv

/- A delete that has nothing to clean up. -/
theorem forget_at_once_wp {s : State} {x : DeleteExit}
    (hremoves : RemovesOwed d (s.world.tables.vmsByPod.get pod.key) s.notes)
    (hgone : pod.spec.managed = true →
      ∀ v, s.world.tables.vmsByPod.get pod.key = some v → OfKind pod v → s.Gone v) :
    (ask (.forgetPod pod.key) >>= fun _ => pure (.ok x)).wp Answers (Body d pod s) s :=
  forget_wp (p := pure ()) trivial rfl hremoves hgone

theorem deleteBound_wp (hs : s.notes = []) (hkind : isMacosSpec pod.spec = false)
    (hbound : s.world.tables.vmsByPod.get pod.key = some v) :
    (deleteBound d pod v).wp Answers (Body d pod s) s := by
  unfold deleteBound
  refine Proc.wp_seq (snapshotBeforeDelete_wp hs) fun s₁ saved hprep => ?_
  cases saved with
  | error e =>
    exact Body.of_error hprep.tables (removesOwed_of_quiet hprep.quiet)
  | ok u =>
    refine Proc.wp_seq removeVM_wp fun s₂ r hrem => ?_
    have htables : s₂.world.tables = s.world.tables := hrem.tables.trans hprep.tables
    have hremoves : RemovesOwed d (s.world.tables.vmsByPod.get pod.key) s₂.notes := by
      rw [hbound, hrem.notes]
      exact removesOwed_removed hprep.quiet (hprep.may u rfl)
    cases r with
    | error e =>
      exact Body.of_error htables hremoves
    | ok u' =>
      refine forget_wp (dropSnapshots_only d v.name) htables hremoves fun _ v' hv' hk => ?_
      obtain rfl : v = v' := Option.some.inj (hbound.symm.trans hv')
      unfold OfKind at hk
      simp only [State.Gone, hk, hkind]
      exact hrem.gone u' rfl

/- `vm rm` leaves no guest of the name when it succeeds or finds none. -/
theorem macosRm_gone {s s' : State} {vmName : String} {r : Except MacosFailure Unit}
    (hr : Answers s (.macosRm vmName) r s')
    (hok : ∀ f, r = .error f → macosVMMissing f.out = true) : s'.guests.get vmName = none := by
  obtain ⟨lands, hlands, rfl, hmissing⟩ := hr
  cases lands with
  | true => exact GoMap.get_del_self _ _
  | false =>
    cases r with
    | ok _ => cases hlands
    | error f => exact hmissing f rfl (hok f rfl)

theorem macosLeaseRecord_wp (vmName : String) (bound : Option VM) :
    (macosLeaseRecord vmName bound).wp Answers (fun s' _ => s' = s) s := by
  cases bound with
  | some v => rfl
  | none => exact Proc.wp_ask_bind.mpr fun _ _ hr => hr.1

theorem deleteMacosPod_wp (hs : s.notes = []) (hkind : isMacosSpec pod.spec = true) :
    (deleteMacosPod d pod).wp Answers (Body d pod s) s := by
  unfold deleteMacosPod
  refine Proc.wp_ask_bind.mpr fun bound s₁ hr => ?_
  obtain ⟨rfl, rfl⟩ := hr
  have hquiet : RemovesOwed d (s₁.world.tables.vmsByPod.get pod.key) s₁.notes := by
    rw [hs]
    exact removesOwed_nil _
  dsimp only
  by_cases hname : (macosName pod (s₁.world.tables.vmsByPod.get pod.key) == "") = true
  · -- neither the record nor the pod names a guest
    rw [if_pos hname]
    refine forget_at_once_wp hquiet fun _ v hv hk => ?_
    rw [hv] at hname
    unfold OfKind at hk
    simp only [State.Gone, hk, hkind, if_true]
    left
    by_contra hne
    simp [macosName, hne] at hname
  · rw [if_neg hname]
    refine Proc.wp_seq (macosLeaseRecord_wp _ _) fun s₂ v hs₂ => ?_
    subst hs₂
    refine Proc.wp_ask_bind.mpr fun r s₃ hr => ?_
    have htables : s₃.world.tables = s₂.world.tables := by
      obtain ⟨_, -, rfl, -⟩ := hr
      rfl
    have hremoves : RemovesOwed d (s₂.world.tables.vmsByPod.get pod.key) s₃.notes := by
      obtain ⟨_, -, rfl, -⟩ := hr
      exact hquiet
    have hforget : (∀ f, r = .error f → macosVMMissing f.out = true) →
        (releaseDHCPLeases d v >>= fun _ => ask (.forgetPod pod.key) >>= fun _ =>
          pure (.ok .ok)).wp Answers (Body d pod s₂) s₃ := by
      intro hok
      refine forget_wp (releaseDHCPLeases_only d v) htables hremoves fun _ u hu hk => ?_
      have hgone := macosRm_gone hr hok
      unfold OfKind at hk
      simp only [State.Gone, hk, hkind, if_true]
      rw [hu] at hgone
      by_cases hempty : u.name = ""
      · exact Or.inl hempty
      · right
        simpa [macosName, hempty] using hgone
    cases r with
    | error f =>
      dsimp only
      cases hmiss : macosVMMissing f.out with
      | true =>
        refine hforget fun g hg => ?_
        cases hg
        exact hmiss
      | false => exact Body.of_error htables hremoves
    | ok _ => exact hforget fun _ h => by cases h

theorem deleteByKind_wp (hs : s.notes = []) : (deleteByKind d pod).wp Answers (Body d pod s) s := by
  have hquiet : RemovesOwed d (s.world.tables.vmsByPod.get pod.key) s.notes := by
    rw [hs]
    exact removesOwed_nil _
  unfold deleteByKind
  split
  next hmac => exact deleteMacosPod_wp hs hmac
  next hmac =>
    split
    next hman =>
      refine forget_at_once_wp hquiet fun hm => ?_
      rw [hm] at hman
      cases hman
    next =>
      refine Proc.wp_ask_bind.mpr fun bound s₁ hr => ?_
      obtain ⟨rfl, rfl⟩ := hr
      cases hv : s₁.world.tables.vmsByPod.get pod.key with
      | none =>
        refine forget_wp (dropSnapshots_only d pod.spec.vmName) rfl hquiet fun _ v hv' => ?_
        rw [hv] at hv'
        cases hv'
      | some v => exact deleteBound_wp hs (Bool.eq_false_iff.mpr hmac) hv

theorem deleteClaimed_wp (hs : s.notes = []) : (deleteClaimed d pod).wp Answers (Body d pod s) s := by
  unfold deleteClaimed
  refine Proc.wp_ask_bind.mpr fun held s₁ hr => ?_
  obtain ⟨-, rfl⟩ := hr
  split
  · refine Body.of_error rfl ?_
    rw [hs]
    exact removesOwed_nil _
  · exact deleteByKind_wp hs

end Parts

/-! ### The whole call -/

theorem forgetPod_noEntries (t : Tables) (key : Key) :
    NoEntries ((t.forgetPod key).finishDeleting key) key := by
  have hdel : ∀ {ν : Type} (m : GoMap Key ν), (m.del key).has key = false := fun m => by
    rw [GoMap.has_del, decide_eq_true rfl, Bool.not_true, Bool.false_and]
  unfold finishDeleting forgetPod untrackLocked
  refine ⟨hdel _, ?_, hdel _, hdel _, hdel _, hdel _⟩
  show (t.dropVMLocked key).vmsByPod.has key = false
  rw [GoMap.not_has_iff, dropVMLocked_vmsByPod, if_pos rfl]

theorem SameEntries.of_finish {t : Tables} {key : Key} (hfree : t.deletingLocked key = false) :
    SameEntries t (({ t with deleting := t.deleting.set key () } : Tables).finishDeleting key) key := by
  refine ⟨rfl, rfl, rfl, rfl, rfl, ?_⟩
  rw [hfree]
  exact (GoMap.not_has_iff _ _).mpr (GoMap.get_del_self _ _)

/-- Alone on its key, `deletePod` does nothing by halves: an error leaves the entries of the key as they
were, a removal waits for the snapshot that is owed, and a return without an error leaves neither an
entry nor the VM. -/
theorem deletePod_allOrNothing (d : DeletePolicy) (pod : Pod) {s s' : State}
    {r : Except String DeleteExit} (hnotes : s.notes = [])
    (h : Proc.Exec Answers s (deletePod d pod) s' r) : AllOrNothing d pod s s' r := by
  refine h.post (Proc.wp_ask_bind.mpr fun claim s₁ hr => ?_)
  obtain ⟨rfl, rfl⟩ := hr
  have hquiet : RemovesOwed d (s.world.tables.vmsByPod.get pod.key) s.notes := by
    rw [hnotes]
    exact removesOwed_nil _
  rcases claimDeleting_cases s.world.tables pod.key pod.uid with ⟨hne, heq⟩ | ⟨hfree, heq⟩
  · have hsame : s.onTables (fun t => (t.claimDeleting pod.key pod.uid).1) = s := by
      simp only [State.onTables, World.onTables, heq]
    rw [hsame]
    cases hclaim : (s.world.tables.claimDeleting pod.key pod.uid).2 with
    | superseded =>
      exact ⟨fun _ h => (by cases h), hquiet, fun x hx hne => absurd (Except.ok.inj hx).symm hne,
        fun x hx hne => absurd (Except.ok.inj hx).symm hne⟩
    | inFlight =>
      exact ⟨fun _ _ => ⟨rfl, rfl, rfl, rfl, rfl, rfl⟩, hquiet, fun _ h => (by cases h),
        fun _ h => (by cases h)⟩
    | claimed => exact absurd hclaim hne
  · have hclaim : s.onTables (fun t => (t.claimDeleting pod.key pod.uid).1) =
        s.onTables fun t => { t with deleting := t.deleting.set pod.key () } := by
      simp only [State.onTables, World.onTables, heq]
    rw [hclaim, heq]
    refine Proc.wp_seq (deleteClaimed_wp hnotes) fun s₂ r hbody => ?_
    refine Proc.wp_ask_bind.mpr fun _ s₃ hr => ?_
    subst hr
    refine ⟨fun e he => ?_, hbody.removes, fun x hx _ => ?_, fun x hx _ => hbody.gone x hx⟩
    · show SameEntries s.world.tables (s₂.world.tables.finishDeleting pod.key) pod.key
      rw [hbody.kept e he]
      exact SameEntries.of_finish hfree
    · show NoEntries (s₂.world.tables.finishDeleting pod.key) pod.key
      rw [hbody.forgotten x hx]
      exact forgetPod_noEntries _ _

/-- Surroundings in which every call that can succeed does. -/
def obliging (s : State) : (q : DeleteCall) → DeleteAns q × State
  | .claimDeleting key uid =>
    ((s.world.tables.claimDeleting key uid).2, s.onTables fun t => (t.claimDeleting key uid).1)
  | .finishDeleting key => ((), s.onTables (·.finishDeleting key))
  | .forgetPod key => ((), s.onTables (·.forgetPod key))
  | .resuming key => (s.world.tables.resumedOps.has key, s)
  | .vmForPod key => (s.world.tables.vmsByPod.get key, s)
  | .inspect id =>
    (match s.world.runtime.get id with
      | some v => .ok v
      | none => .error ⟨"vm not found", true⟩, s)
  | .snapshotSave localName id =>
    if s.world.runtime.has id then
      (.ok (),
        { s with
          world := { s.world with
            localSnapshots := s.world.localSnapshots.set localName ⟨s.world.nextSnap, id⟩
            nextSnap := s.world.nextSnap + 1 }
          notes := .saved localName id :: s.notes })
    else (.error ⟨"vm not found", true⟩, s)
  | .pushSnapshot localName repo tag _ => (.ok (), s.note (.pushed localName repo tag))
  | .remove id =>
    (if s.world.runtime.has id then .ok () else .error ⟨"vm not found", true⟩,
      { s with
        world := { s.world with runtime := s.world.runtime.del id }
        notes := .removed id (s.world.runtime.get id) :: s.notes })
  | .releaseByMAC mac => (.ok (), { s with world := { s.world with leases := s.world.leases.del mac } })
  | .snapshotRemoveIfExists name =>
    (.ok (), { s with world := { s.world with localSnapshots := s.world.localSnapshots.del name } })
  | .macosInspect vmName => (s.guests.get vmName, s)
  | .macosRm vmName =>
    (if s.guests.has vmName then .ok () else .error ⟨"exit status 1", "VM not found"⟩,
      { s with guests := s.guests.del vmName })

theorem obliging_answers (s : State) (q : DeleteCall) : Answers s q (obliging s q).1 (obliging s q).2 := by
  cases q with
  | claimDeleting key uid => exact ⟨rfl, rfl⟩
  | finishDeleting key | forgetPod key => rfl
  | resuming key | vmForPod key => exact ⟨rfl, rfl⟩
  | inspect id =>
    refine ⟨rfl, ?_⟩
    show match (obliging s (.inspect id)).1 with
      | .ok current => s.world.runtime.get id = some current
      | .error e => e.notFound = true → s.world.runtime.get id = none
    simp only [obliging]
    cases s.world.runtime.get id with
    | none => exact fun _ => rfl
    | some v => rfl
  | snapshotSave localName id =>
    simp only [obliging]
    split
    next hhas => exact ⟨fun _ _ => hhas, _, _, rfl⟩
    next => exact ⟨fun _ h => (by cases h), _, _, rfl⟩
  | pushSnapshot localName repo tag image => rfl
  | remove id =>
    simp only [obliging]
    split
    next => exact ⟨true, rfl, rfl, fun _ h => (by cases h)⟩
    next hhas =>
      exact ⟨true, trivial, rfl, fun _ _ _ =>
        (GoMap.not_has_iff _ _).mp (Bool.eq_false_iff.mpr hhas)⟩
  | releaseByMAC mac | snapshotRemoveIfExists name => exact ⟨true, rfl, rfl⟩
  | macosInspect vmName => exact ⟨rfl, fun _ h => h⟩
  | macosRm vmName =>
    simp only [obliging]
    split
    next => exact ⟨true, rfl, rfl, fun _ h => (by cases h)⟩
    next hhas =>
      exact ⟨true, trivial, rfl, fun _ _ _ =>
        (GoMap.not_has_iff _ _).mp (Bool.eq_false_iff.mpr hhas)⟩

def samplePolicy : DeletePolicy where
  hasPusher := true
  hasReleaser := true
  keepSnapshots := false
  shouldSnapshot := true
  image := "img"
  defaultSnapshotTag := "latest"

/- A delete that owes a snapshot: it is saved and pushed, then the VM is removed. -/
theorem deletePod_allOrNothing_snapshot :
    (((deletePod samplePolicy samplePod).run obliging ⟨sampleWorld, .empty, []⟩).1.notes,
      ((deletePod samplePolicy samplePod).run obliging ⟨sampleWorld, .empty, []⟩).2) =
      ([.removed "vm1" (some sampleVM), .pushed "vk-a" "" "latest", .saved "vk-a" "vm1"], .ok .ok) ∧
    AllOrNothing samplePolicy samplePod ⟨sampleWorld, .empty, []⟩
      ((deletePod samplePolicy samplePod).run obliging ⟨sampleWorld, .empty, []⟩).1
      ((deletePod samplePolicy samplePod).run obliging ⟨sampleWorld, .empty, []⟩).2 :=
  ⟨by decide +kernel,
    deletePod_allOrNothing samplePolicy samplePod rfl (Proc.exec_run obliging_answers _ _)⟩

/-- The delete of a managed pod returns without an error and leaves the bound VM `v` running. -/
def LeavesVM (d : DeletePolicy) (pod : Pod) (s : State) (v : VM) : Prop :=
  ∃ s', Proc.Exec Answers s (deletePod d pod) s' (.ok .ok) ∧ pod.spec.managed = true ∧ s.notes = [] ∧
    s.world.tables.vmsByPod.get pod.key = some v ∧ ¬s'.Gone v

theorem leavesVM_of_run {d : DeletePolicy} {pod : Pod} {s : State} {v : VM}
    (hr : ((deletePod d pod).run obliging s).2 = .ok .ok) (hm : pod.spec.managed = true)
    (hn : s.notes = []) (hv : s.world.tables.vmsByPod.get pod.key = some v)
    (hg : ¬((deletePod d pod).run obliging s).1.Gone v) : LeavesVM d pod s v :=
  ⟨_, hr ▸ Proc.exec_run obliging_answers s _, hm, hn, hv, hg⟩

def sampleGuest : VM := { sampleVM with id := macosVMID "vk-a", hypervisor := macosHypervisor }

def sampleMacosPod : Pod := { samplePod with spec := { samplePod.spec with os := .macos } }

/- The OS of the pod decides which backend is asked. A guest of `cocoon-macos` that is bound to another
pod is unknown to the runtime, and a VM of the runtime that is bound to a macOS pod to `cocoon-macos`:
the delete forgets either of them as if it were gone. -/
theorem deletePod_leaves_other_kind :
    LeavesVM samplePolicy samplePod
      ⟨{ sampleWorld with tables := Tables.new.trackPodLocked samplePod (some sampleGuest) },
        GoMap.empty.set "vk-a" ⟨100, "", ""⟩, []⟩ sampleGuest ∧
    LeavesVM samplePolicy sampleMacosPod
      ⟨{ sampleWorld with tables := Tables.new.trackPodLocked sampleMacosPod (some sampleVM) },
        .empty, []⟩ sampleVM := by
  constructor
  · refine leavesVM_of_run (by decide +kernel) rfl rfl (by decide +kernel) ?_
    simp only [State.Gone]
    decide +kernel
  · refine leavesVM_of_run (by decide +kernel) rfl rfl (by decide +kernel) ?_
    simp only [State.Gone]
    decide +kernel

/-! ### The delete of the pool follows the procedure -/

section Pool
variable {d : DeletePolicy} {pod : Pod}

/-- The answer of a call that got the reply `r`. -/
def answerOf (r : Reply) : Except CallError Unit :=
  match r.err with
  | none => .ok ()
  | some e => .error ⟨e, false⟩

theorem landed_answerOf (r : Reply) : Landed r.lands (answerOf r) := by
  cases r <;> first | rfl | trivial

/-- The deferred `finishDeleting`. -/
def finishing (pod : Pod) (r : Except String DeleteExit) : DeleteCode (Except String DeleteExit) :=
  ask (.finishDeleting pod.key) >>= fun _ => pure r

/-- What a caller does with the result of a part: an error is returned, else it goes on with `p`. -/
structure Then (p : DeleteCode (Except String DeleteExit))
    (f : Except String Unit → DeleteCode (Except String DeleteExit)) : Prop where
  fails : ∀ e, ∃ r, f (.error e) = pure r
  goes : f (.ok ()) = p

theorem Then.failed {p : DeleteCode (Except String DeleteExit)}
    {f : Except String Unit → DeleteCode (Except String DeleteExit)} (h : Then p f) (pod : Pod)
    (e : String) : ∃ r, f (.error e) >>= finishing pod = finishing pod r := by
  obtain ⟨r, hr⟩ := h.fails e
  rw [hr]
  exact ⟨r, rfl⟩

theorem Then.passed {p : DeleteCode (Except String DeleteExit)}
    {f : Except String Unit → DeleteCode (Except String DeleteExit)} (h : Then p f) (pod : Pod) :
    f (.ok ()) >>= finishing pod = p >>= finishing pod := by
  rw [h.goes]

theorem deleteBound_owed {v : VM} (h : snapshotOwed d v = true) : ∃ f, Then (removeBound d pod v) f ∧
    deleteBound d pod v = saveAndPushSnapshot v d.defaultSnapshotTag d.image >>= f := by
  unfold deleteBound snapshotBeforeDelete
  rw [if_pos h]
  exact ⟨_, ⟨fun e => ⟨_, rfl⟩, rfl⟩, rfl⟩

theorem deleteBound_unowed {v : VM} (h : snapshotOwed d v = false) :
    deleteBound d pod v = removeBound d pod v := by
  unfold deleteBound snapshotBeforeDelete
  rw [if_neg (Bool.eq_false_iff.mp h)]
  rfl

/-- What is left of the procedure at a point of the pool's delete. -/
def Left (d : DeletePolicy) (pod : Pod) : DeletePC → DeleteCode (Except String DeleteExit) → Prop
  | .claim, p => p = deletePod d pod
  | .backoff, p => p = deleteClaimed d pod >>= finishing pod
  | .look, p => p = deleteByKind d pod >>= finishing pod
  | .inspect v, p => ∃ f, Then (removeBound d pod v) f ∧
    p = (saveAndPushSnapshot v d.defaultSnapshotTag d.image >>= f) >>= finishing pod
  | .save v, p => ∃ f, Then (removeBound d pod v) f ∧
    p = (saveAndPush v.id v.name "" d.defaultSnapshotTag d.image >>= f) >>= finishing pod
  | .push v, p => ∃ f, Then (removeBound d pod v) f ∧
    ∃ g : Except CallError Unit → DeleteCode (Except String Unit), g (.ok ()) = pure (.ok ()) ∧
      (∀ e, ∃ e', g (.error e) = pure (.error e')) ∧
      p = ((ask (.pushSnapshot v.name "" d.defaultSnapshotTag d.image) >>= g) >>= f) >>= finishing pod
  | .remove v, p => p = removeBound d pod v >>= finishing pod
  | .releaseLeases v, p => p = (releaseDHCPLeases d v >>= fun _ =>
    dropSnapshots d v.name >>= fun _ => ask (.forgetPod pod.key) >>= fun _ => pure (.ok .ok)) >>=
      finishing pod
  | .dropSnapshot name, p => ∃ x, name ≠ "" ∧ p = (removeLocalSnapshots name >>= fun _ =>
    ask (.forgetPod pod.key) >>= fun _ => pure (.ok x)) >>= finishing pod
  | .dropFork name, p => ∃ x, p = ((ask (.snapshotRemoveIfExists (forkSnapshotName name)) >>= fun _ =>
    pure ()) >>= fun _ => ask (.forgetPod pod.key) >>= fun _ => pure (.ok x)) >>= finishing pod
  | .forget, p => ∃ x, p = (ask (.forgetPod pod.key) >>= fun _ => pure (.ok x)) >>= finishing pod
  | .finish, p => ∃ r, p = finishing pod r
  | .done, p => ∃ r, p = pure r

/-- The policy is the one of the pool's delete. -/
structure SamePolicy (d : DeletePolicy) (del : Delete) (w : World) : Prop where
  keepSnapshots : d.keepSnapshots = del.keepSnapshots
  shouldSnapshot : d.shouldSnapshot = del.shouldSnapshot
  hasPusher : d.hasPusher = w.hasPusher
  hasReleaser : d.hasReleaser = true
  kind : isMacosSpec del.pod.spec = false

/-- Every end of `p'` from `s₁` is an end of `p` from `s`. -/
def Continues (s : State) (p : DeleteCode (Except String DeleteExit)) (s₁ : State)
    (p' : DeleteCode (Except String DeleteExit)) : Prop :=
  ∀ s' r, Proc.Exec Answers s₁ p' s' r → Proc.Exec Answers s p s' r

theorem continues_call {s s₁ : State} {q : DeleteCall} {r : DeleteAns q}
    {k : DeleteAns q → DeleteCode (Except String DeleteExit)}
    {p' : DeleteCode (Except String DeleteExit)} (hr : Answers s q r s₁) (hk : k r = p') :
    Continues s (.call q k) s₁ p' :=
  fun _ _ h => .call hr (hk ▸ h)

/-- The delete goes from `w` to `w'` and its point to `pc'`, and the procedure from `p` with it. -/
def Follows (d : DeletePolicy) (pod : Pod) (s : State) (p : DeleteCode (Except String DeleteExit))
    (w' : World) (pc' : DeletePC) : Prop :=
  w'.hasPusher = s.world.hasPusher ∧
    ∃ p' n', Left d pod pc' p' ∧ Continues s p ⟨w', s.guests, n'⟩ p'

theorem left_cleanup {del : Delete} {w : World} (hd : SamePolicy d del w) (name : String) (x : DeleteExit) :
    Left d del.pod (del.cleanup name) ((dropSnapshots d name >>= fun _ =>
      ask (.forgetPod del.pod.key) >>= fun _ => pure (.ok x)) >>= finishing del.pod) := by
  unfold Delete.cleanup dropSnapshots
  rw [hd.keepSnapshots]
  cases del.keepSnapshots with
  | true => exact ⟨x, rfl⟩
  | false =>
    by_cases hname : name = ""
    · subst hname
      exact ⟨x, rfl⟩
    · rw [Bool.false_or, beq_eq_false_iff_ne.mpr hname]
      exact ⟨x, hname, rfl⟩

theorem continues_releaseByMACs (macs : List String) (w : World) (g : GoMap String MacosVMRecord)
    (n : List Note) (p : DeleteCode (Except String DeleteExit)) :
    Continues ⟨w, g, n⟩ (releaseByMACs macs >>= fun _ => p)
      ⟨{ w with leases := macs.foldl GoMap.del w.leases }, g, n⟩ p := by
  induction macs generalizing w with
  | nil => exact fun _ _ h => h
  | cons mac macs ih =>
    intro s' r h
    have hans : Answers ⟨w, g, n⟩ (.releaseByMAC mac) (.ok ())
        ⟨{ w with leases := w.leases.del mac }, g, n⟩ := ⟨true, rfl, rfl⟩
    exact .call hans (ih { w with leases := w.leases.del mac } s' r h)

theorem snapshotSave_eq (w : World) (name : String) (id : VMID) (r : Reply) : ∃ snaps next,
    (w.snapshotSave name id r).1 = { w with localSnapshots := snaps, nextSnap := next } ∧
      ((w.snapshotSave name id r).2 = none → w.runtime.has id = true) := by
  unfold World.snapshotSave
  split
  next htaken => exact ⟨_, _, rfl, fun h => by rw [htaken] at h; cases h⟩
  next =>
    split
    next hhas => cases r.lands <;> exact ⟨_, _, rfl, fun _ => hhas⟩
    next => exact ⟨_, _, rfl, fun h => by cases h⟩

theorem snapshotRemove_pusher (w : World) (name : String) (r : Reply) :
    (w.snapshotRemove name r).hasPusher = w.hasPusher := by
  unfold World.snapshotRemove
  split <;> rfl

theorem snapshotRemove_answers (w : World) (g : GoMap String MacosVMRecord) (n : List Note)
    (name : String) (r : Reply) : Answers ⟨w, g, n⟩ (.snapshotRemoveIfExists name) (answerOf r)
      ⟨w.snapshotRemove name r, g, n⟩ := by
  refine ⟨r.lands, landed_answerOf r, ?_⟩
  unfold World.snapshotRemove
  cases r.lands <;> rfl

section Step
variable {w : World} {g : GoMap String MacosVMRecord} {n : List Note} {v : VM}
  {f : Except String Unit → DeleteCode (Except String DeleteExit)}

theorem inspect_follows (hf : Then (removeBound d pod v) f) (reply : Reply) :
    Follows d pod ⟨w, g, n⟩
      ((saveAndPushSnapshot v d.defaultSnapshotTag d.image >>= f) >>= finishing pod) w
      (match w.inspect v.id reply with
        | .notFound => .remove v
        | .inconclusive _ => .finish
        | .found current => if current.state = .running then .save v else .remove v) := by
  refine ⟨rfl, ?_⟩
  unfold World.inspect
  cases reply.err with
  | some e =>
    have hans : Answers ⟨w, g, n⟩ (.inspect v.id) (.error ⟨e, false⟩) ⟨w, g, n⟩ :=
      ⟨rfl, fun h => by cases h⟩
    obtain ⟨r, hr⟩ := hf.failed pod s!"inspect vm {v.id}: {e}"
    exact ⟨_, n, ⟨r, rfl⟩, continues_call hans hr⟩
  | none =>
    cases hv : w.runtime.get v.id with
    | none =>
      have hans : Answers ⟨w, g, n⟩ (.inspect v.id) (.error ⟨"vm not found", true⟩) ⟨w, g, n⟩ :=
        ⟨rfl, fun _ => hv⟩
      exact ⟨_, n, rfl, continues_call hans (hf.passed pod)⟩
    | some current =>
      have hans : Answers ⟨w, g, n⟩ (.inspect v.id) (.ok current) ⟨w, g, n⟩ := ⟨rfl, hv⟩
      dsimp only
      by_cases hrun : current.state = .running
      · rw [if_pos hrun]
        refine ⟨_, n, ⟨f, hf, rfl⟩, continues_call hans ?_⟩
        show ((if current.state != .running then pure (.ok ())
          else saveAndPush v.id v.name "" d.defaultSnapshotTag d.image) >>= f) >>= finishing pod = _
        rw [if_neg (by simp [hrun])]
      · rw [if_neg hrun]
        refine ⟨_, n, rfl, continues_call hans ?_⟩
        show ((if current.state != .running then pure (.ok ())
          else saveAndPush v.id v.name "" d.defaultSnapshotTag d.image) >>= f) >>= finishing pod = _
        rw [if_pos (by simpa using hrun)]
        exact hf.passed pod

theorem save_follows (hf : Then (removeBound d pod v) f) (reply : Reply) :
    Follows d pod ⟨w, g, n⟩
      ((saveAndPush v.id v.name "" d.defaultSnapshotTag d.image >>= f) >>= finishing pod)
      (w.snapshotSave v.name v.id reply).1
      (if (w.snapshotSave v.name v.id reply).2.isSome then .finish else .push v) := by
  obtain ⟨snaps, next, hw, hhas⟩ := snapshotSave_eq w v.name v.id reply
  rw [hw]
  cases herr : (w.snapshotSave v.name v.id reply).2 with
  | none =>
    have hans : Answers ⟨w, g, n⟩ (.snapshotSave v.name v.id) (.ok ())
        ⟨{ w with localSnapshots := snaps, nextSnap := next }, g, .saved v.name v.id :: n⟩ :=
      ⟨fun _ _ => hhas herr, snaps, next, rfl⟩
    exact ⟨rfl, _, _, ⟨f, hf, _, rfl, fun e => ⟨_, rfl⟩, rfl⟩, continues_call hans rfl⟩
  | some e =>
    have hans : Answers ⟨w, g, n⟩ (.snapshotSave v.name v.id) (.error ⟨e, false⟩)
        ⟨{ w with localSnapshots := snaps, nextSnap := next }, g, n⟩ :=
      ⟨fun _ h => (by cases h), snaps, next, rfl⟩
    obtain ⟨r, hr⟩ := hf.failed pod s!"save snapshot {v.name}: {e}"
    exact ⟨rfl, _, n, ⟨r, rfl⟩, continues_call hans hr⟩

theorem push_follows (hf : Then (removeBound d pod v) f)
    {k : Except CallError Unit → DeleteCode (Except String Unit)} (hok : k (.ok ()) = pure (.ok ()))
    (herr : ∀ e, ∃ e', k (.error e) = pure (.error e')) (reply : Reply) :
    Follows d pod ⟨w, g, n⟩
      (((ask (.pushSnapshot v.name "" d.defaultSnapshotTag d.image) >>= k) >>= f) >>= finishing pod) w
      (if reply.err.isSome then .finish else .remove v) := by
  refine ⟨rfl, ?_⟩
  cases reply.err with
  | none =>
    have hans : Answers ⟨w, g, n⟩ (.pushSnapshot v.name "" d.defaultSnapshotTag d.image) (.ok ())
        ⟨w, g, .pushed v.name "" d.defaultSnapshotTag :: n⟩ := rfl
    refine ⟨_, _, rfl, continues_call hans ?_⟩
    show (k (.ok ()) >>= f) >>= finishing pod = _
    rw [hok]
    exact hf.passed pod
  | some e =>
    have hans : Answers ⟨w, g, n⟩ (.pushSnapshot v.name "" d.defaultSnapshotTag d.image)
        (.error ⟨e, false⟩) ⟨w, g, n⟩ := rfl
    obtain ⟨e', he'⟩ := herr ⟨e, false⟩
    obtain ⟨r, hr⟩ := hf.failed pod e'
    refine ⟨_, _, ⟨r, rfl⟩, continues_call hans ?_⟩
    show (k (.error ⟨e, false⟩) >>= f) >>= finishing pod = _
    rw [he']
    exact hr

theorem remove_follows (reply : Reply) :
    Follows d pod ⟨w, g, n⟩ (removeBound d pod v >>= finishing pod) (w.remove v.id reply).1
      (if (w.remove v.id reply).2.isSome then .finish else .releaseLeases v) := by
  unfold World.remove
  have hans : Answers ⟨w, g, n⟩ (.remove v.id) (answerOf reply)
      ⟨if reply.lands then { w with runtime := w.runtime.del v.id } else w, g,
        .removed v.id (w.runtime.get v.id) :: n⟩ := by
    refine ⟨reply.lands, landed_answerOf _, ?_, ?_⟩
    · cases reply.lands <;> rfl
    · unfold answerOf
      cases reply.err with
      | none => exact fun _ h => (by cases h)
      | some e => exact fun _ h hnf => (by cases h; cases hnf)
  refine ⟨by cases reply.lands <;> rfl, ?_⟩
  unfold answerOf at hans
  cases herr : reply.err with
  | none =>
    rw [herr] at hans
    refine ⟨_, _, rfl, continues_call hans ?_⟩
    exact congrArg (· >>= finishing pod)
      (Proc.bind_assoc (releaseDHCPLeases d v) (fun _ => pure (Except.ok ())) _)
  | some e =>
    rw [herr] at hans
    exact ⟨_, _, ⟨_, rfl⟩, continues_call hans rfl⟩

end Step

/- One step of the pool's delete is a part of the procedure. -/
theorem delete_step_follows {del : Delete} {w w' : World} {a : Answer} {pc' : DeletePC}
    (g : GoMap String MacosVMRecord) (n : List Note) (hd : SamePolicy d del w)
    {p : DeleteCode (Except String DeleteExit)} (hleft : Left d del.pod del.pc p)
    (h : del.step w a = some (w', pc')) : Follows d del.pod ⟨w, g, n⟩ p w' pc' := by
  unfold Delete.step at h
  cases hpc : del.pc with
  | claim =>
    simp only [hpc] at h
    rw [hpc] at hleft
    obtain rfl := hleft
    cases hc : w.tables.claimDeleting del.pod.key del.pod.uid with
    | mk t claim =>
      have hans : Answers ⟨w, g, n⟩ (.claimDeleting del.pod.key del.pod.uid) claim
          ⟨{ w with tables := t }, g, n⟩ := by
        refine ⟨?_, ?_⟩
        · rw [hc]
        · simp only [State.onTables, World.onTables, hc]
      rw [hc] at h
      cases claim with
      | claimed =>
        cases h
        exact ⟨rfl, _, n, rfl, continues_call hans rfl⟩
      | inFlight | superseded =>
        cases h
        exact ⟨rfl, _, n, ⟨_, rfl⟩, continues_call hans rfl⟩
  | backoff =>
    simp only [hpc] at h
    rw [hpc] at hleft
    obtain rfl := hleft
    cases h
    have hans : Answers ⟨w, g, n⟩ (.resuming del.pod.key) (w.tables.resumedOps.has del.pod.key)
        ⟨w, g, n⟩ := ⟨rfl, rfl⟩
    cases hres : w.tables.resumedOps.has del.pod.key with
    | true =>
      rw [hres] at hans
      exact ⟨rfl, _, n, ⟨_, rfl⟩, continues_call hans rfl⟩
    | false =>
      rw [hres] at hans
      exact ⟨rfl, _, n, rfl, continues_call hans rfl⟩
  | look =>
    simp only [hpc] at h
    rw [hpc] at hleft
    obtain rfl := hleft
    cases h
    refine ⟨rfl, ?_⟩
    have hkind : (isMacosSpec del.pod.spec = true) = False := by simp [hd.kind]
    cases hman : del.pod.spec.managed with
    | false =>
      refine ⟨_, n, ⟨.unmanaged, rfl⟩, ?_⟩
      simp only [deleteByKind, hkind, hman]
      exact fun _ _ h => h
    | true =>
      have hans : Answers ⟨w, g, n⟩ (.vmForPod del.pod.key) (w.tables.vmsByPod.get del.pod.key)
          ⟨w, g, n⟩ := ⟨rfl, rfl⟩
      simp only [deleteByKind, hkind, hman]
      cases hv : w.tables.vmsByPod.get del.pod.key with
      | none =>
        rw [hv] at hans
        exact ⟨_, n, left_cleanup hd del.pod.spec.vmName _, continues_call hans rfl⟩
      | some v =>
        rw [hv] at hans
        have howed : (del.shouldSnapshot && w.hasPusher && v.name != "") = snapshotOwed d v := by
          rw [snapshotOwed, hd.shouldSnapshot, hd.hasPusher]
        simp only [howed]
        cases hs : snapshotOwed d v with
        | true =>
          obtain ⟨f, hf, heq⟩ := @deleteBound_owed d del.pod v hs
          refine ⟨_, n, ⟨f, hf, rfl⟩, continues_call hans ?_⟩
          exact congrArg (· >>= finishing del.pod) heq
        | false =>
          refine ⟨_, n, rfl, continues_call hans ?_⟩
          exact congrArg (· >>= finishing del.pod) (deleteBound_unowed hs)
  | inspect v =>
    simp only [hpc] at h
    rw [hpc] at hleft
    obtain ⟨f, hf, rfl⟩ := hleft
    cases h
    exact inspect_follows hf a.reply
  | save v =>
    rw [hpc] at hleft
    obtain ⟨f, hf, rfl⟩ := hleft
    have hfollow := @save_follows d del.pod w g n v f hf a.reply
    simp only [hpc] at h
    split at h <;> next heq => cases h; rw [heq] at hfollow; exact hfollow
  | push v =>
    simp only [hpc] at h
    rw [hpc] at hleft
    obtain ⟨f, hf, k, hok, herr, rfl⟩ := hleft
    cases h
    exact push_follows hf hok herr a.reply
  | remove v =>
    rw [hpc] at hleft
    obtain rfl := hleft
    have hfollow := @remove_follows d del.pod w g n v a.reply
    simp only [hpc] at h
    split at h <;> next heq => cases h; rw [heq] at hfollow; exact hfollow
  | releaseLeases v =>
    simp only [hpc] at h
    rw [hpc] at hleft
    obtain rfl := hleft
    cases h
    refine ⟨rfl, _, n, left_cleanup hd v.name .ok, ?_⟩
    rw [releaseDHCPLeases, if_pos hd.hasReleaser, Proc.bind_assoc]
    exact continues_releaseByMACs _ w g n _
  | dropSnapshot name =>
    simp only [hpc] at h
    rw [hpc] at hleft
    obtain ⟨x, hname, rfl⟩ := hleft
    cases h
    refine ⟨snapshotRemove_pusher _ _ _, _, n, ⟨x, rfl⟩, ?_⟩
    rw [removeLocalSnapshots, if_neg (by simpa using hname)]
    exact continues_call (snapshotRemove_answers w g n _ a.reply) rfl
  | dropFork name =>
    simp only [hpc] at h
    rw [hpc] at hleft
    obtain ⟨x, rfl⟩ := hleft
    cases h
    exact ⟨snapshotRemove_pusher _ _ _, _, n, ⟨x, rfl⟩,
      continues_call (snapshotRemove_answers w g n _ a.reply) rfl⟩
  | forget =>
    simp only [hpc] at h
    rw [hpc] at hleft
    obtain ⟨x, rfl⟩ := hleft
    cases h
    have hans : Answers ⟨w, g, n⟩ (.forgetPod del.pod.key) ()
        ⟨w.onTables (·.forgetPod del.pod.key), g, n⟩ := rfl
    exact ⟨rfl, _, n, ⟨_, rfl⟩, continues_call hans rfl⟩
  | finish =>
    simp only [hpc] at h
    rw [hpc] at hleft
    obtain ⟨r, rfl⟩ := hleft
    cases h
    have hans : Answers ⟨w, g, n⟩ (.finishDeleting del.pod.key) ()
        ⟨w.onTables (·.finishDeleting del.pod.key), g, n⟩ := rfl
    exact ⟨rfl, _, n, ⟨r, rfl⟩, continues_call hans rfl⟩
  | done =>
    rw [hpc] at h
    cases h

/-- The steps of a delete that is alone. -/
inductive DeleteRuns (del : Delete) : World → DeletePC → World → Prop where
  | done (w : World) : DeleteRuns del w .done w
  | step {w w₁ w' : World} {pc pc₁ : DeletePC} (a : Answer)
      (h : ({ del with pc := pc } : Delete).step w a = some (w₁, pc₁)) (hrun : DeleteRuns del w₁ pc₁ w') :
      DeleteRuns del w pc w'

theorem delete_runs_follow {del : Delete} {w w' : World} {pc : DeletePC} (hrun : DeleteRuns del w pc w')
    (g : GoMap String MacosVMRecord) (hd : SamePolicy d del w) (n : List Note)
    {p : DeleteCode (Except String DeleteExit)} (hleft : Left d del.pod pc p) :
    ∃ n' r, Proc.Exec Answers ⟨w, g, n⟩ p ⟨w', g, n'⟩ r := by
  induction hrun generalizing n p with
  | done w =>
    obtain ⟨r, rfl⟩ := hleft
    exact ⟨n, r, .ret _ _⟩
  | @step _ _ _ pc _ a h _ ih =>
    have hd' : SamePolicy d { del with pc := pc } _ :=
      ⟨hd.keepSnapshots, hd.shouldSnapshot, hd.hasPusher, hd.hasReleaser, hd.kind⟩
    obtain ⟨hpusher, p', n', hleft', hcont⟩ := delete_step_follows g n hd' hleft h
    obtain ⟨n'', r, hexec⟩ := ih ⟨hd.keepSnapshots, hd.shouldSnapshot, hd.hasPusher.trans hpusher.symm,
      hd.hasReleaser, hd.kind⟩ n' hleft'
    exact ⟨n'', r, hcont _ _ hexec⟩

/- What the delete of the pool does alone, `deletePod` does: its results are those of the procedure. -/
theorem delete_refines {del : Delete} {w w' : World} (hrun : DeleteRuns del w .claim w')
    (g : GoMap String MacosVMRecord) (hd : SamePolicy d del w) :
    ∃ n r, Proc.Exec Answers ⟨w, g, []⟩ (deletePod d del.pod) ⟨w', g, n⟩ r :=
  delete_runs_follow hrun g hd [] rfl

end Pool

end Teardown
end VkCocoon
