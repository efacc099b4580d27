import VkCocoon.BusyCreates
import VkCocoon.Lib.Pool

/-!
# Creating placeholders at startup

`StartupReconcile` takes the creating records out of the runtime's list before it adopts anything:
one closure for each of them asks the reclaim verb, and for a record that is no longer creating the
runtime, and keeps the record, frees it, gives it to the orphan policy or hands it to a watcher.
The closures, the watchers and the rest of startup run as the threads of a pool.
-/

namespace VkCocoon
open Lib Tables

/-- What the two list calls of a restart return. macOS guests never appear in the runtime's list. -/
structure Listing where
  pods : List Pod
  vms : List VM
  ids_nodup : (vms.map VM.id).Nodup
  names_nodup : (vms.map VM.name).Nodup
  macos_apart : ∀ v ∈ vms, ∀ pod ∈ pods, v.id ≠ macosVMID pod.spec.vmName

/-- What has become of a record of the list. -/
inductive Fate where
  | pending
  | kept (v : VM)
  | freed
  | orphaned
  | held (settled : ℕ)
deriving DecidableEq, Repr

def Fate.keep : Fate → Option VM
  | .kept v => some v
  | _ => none

/-- `pending` counts the closures as the fan-out's wait group does; the last three fields are notes
of what the closures were told. -/
structure Boot extends Busy where
  keep : List (Option VM)
  pending : List ℕ
  fate : List Fate
  verbs : GoMap ℕ (Option StaleCreateOutcome)
  inspects : GoMap ℕ Inspected

inductive StalePC where
  | verb
  | inspect
  | orphan (v : VM)
  | watch
  | done
deriving DecidableEq, Repr

/-- The closure of `reconcileStaleCreates` for the record at `index`. -/
structure Closure where
  index : ℕ
  v : VM
  pc : StalePC
deriving DecidableEq, Repr

inductive MainPC where
  | fanOut
  | pods (todo : List Pod) (matched : List VMID)
  | macos (todo : List Pod) (matched : List VMID)
  | sweep (todo : List VM)
  | done
deriving DecidableEq, Repr

inductive BootThread where
  | main (pc : MainPC)
  | closure (x : Closure)
  | watcher (w : BusyWatcher)
deriving DecidableEq, Repr

inductive BootAnswer where
  | verb (outcome : Option StaleCreateOutcome)
  | inspected (answer : Inspected)
  | watch (a : BusyAnswer)
  | findings (a : Findings)
  | go

namespace Boot

/-- The closure of record `i` returns. -/
def finish (b : Boot) (i : ℕ) (fate : Fate) : Boot :=
  { b with
    keep := b.keep.set i fate.keep
    pending := b.pending.filter (· ≠ i)
    fate := b.fate.set i fate }

/-- What `reconcileStaleCreates` returns. -/
def kept (b : Boot) : List VM := b.keep.filterMap id

/-- The answers about a pod, those read off the stripped list included. -/
def findings (b : Boot) (a : Findings) (pod : Pod) : Findings :=
  { a with
    vmByID := (b.kept.foldl (fun m v => m.set v.id v) (.empty : GoMap VMID VM)).get pod.vmid
    vmByName := (b.kept.foldl (fun m v => if v.name != "" then m.set v.name v else m)
      (.empty : GoMap String VM)).get pod.spec.vmName }

end Boot

def Closure.step (policy : OrphanPolicy) (b : Boot) (x : Closure) (a : BootAnswer) :
    Option (Boot × StalePC × List BootThread) :=
  match x.pc, a with
  | .verb, .verb outcome =>
    let b := { b with verbs := b.verbs.set x.index outcome }
    match outcome with
    | none | some .busy => some (b, .watch, [])
    | some .notCreating => some (b, .inspect, [])
    | some _ => some (b.finish x.index .freed, .done, [])
  | .inspect, .inspected answer =>
    if answer.about x.v.id then
      let b := { b with
        toBusy := b.toBusy.observe x.v.id answer
        inspects := b.inspects.set x.index answer }
      match classifySettledCreate answer with
      | ⟨_, false, _⟩ => some (b, .watch, [])
      | ⟨_, true, some v⟩ => some (b, .orphan v, [])
      | ⟨some v, true, none⟩ => some (b.finish x.index (.kept v), .done, [])
      | ⟨none, true, none⟩ => some (b.finish x.index .freed, .done, [])
    else none
  | .orphan v, .go =>
    some ({ b with toBusy := b.toBusy.handleOrphan policy v }.finish x.index .orphaned, .done, [])
  | .watch, .go =>
    match b.toBusy.watchBusyCreate x.v.id x.v.name with
    | (busy, w) => some ({ b with toBusy := busy }.finish x.index (.held w.settled), .done, [.watcher w])
  | _, _ => none

section Main
variable {S : Type} [DecidableEq S] (snapshot : LifecycleStatus → S)

/-- `StartupReconcile` from the two lists on. -/
def mainStep (policy : OrphanPolicy) (l : Listing) (b : Boot) (pc : MainPC) (a : BootAnswer) :
    Option (Boot × MainPC) :=
  match pc, a with
  | .fanOut, .go => if b.pending = [] then some (b, .pods l.pods []) else none
  | .pods (pod :: todo) matched, .findings a =>
    -- macOS pods are left for later
    if isMacosSpec pod.spec then some (b, .pods todo matched)
    else
      some ({ b with tables := reconcilePod snapshot b.tables pod (b.findings a pod) },
        .pods todo (matched ++ (matchPod b.tables pod (b.findings a pod)).toList))
  | .pods [] matched, .go => some (b, .macos (l.pods.filter fun pod => isMacosSpec pod.spec) matched)
  | .macos (pod :: todo) matched, .findings a =>
    -- `registerMacosVM` derives the ID from the VM name
    if a.macosVM.all (·.id == macosVMID pod.spec.vmName) then
      some ({ b with tables := reconcileMacosPod snapshot b.tables pod (b.findings a pod) },
        .macos todo matched)
    else none
  | .macos [] matched, .go => some (b, .sweep (b.kept.filter fun v => v.id ∉ matched))
  | .sweep (v :: todo), .go => some ({ b with toBusy := b.toBusy.handleOrphan policy v }, .sweep todo)
  | .sweep [], .go => some ({ b with tables := dispatchOwedWork b.tables }, .done)
  | _, _ => none

def BootThread.step (policy : OrphanPolicy) (l : Listing) (b : Boot) (_ : ℕ) (t : BootThread)
    (a : BootAnswer) : Option (Boot × BootThread × List BootThread) :=
  match t with
  | .main pc => (mainStep snapshot policy l b pc a).map fun r => (r.1, .main r.2, [])
  | .closure x => (x.step policy b a).map fun r => (r.1, .closure { x with pc := r.2.1 }, r.2.2)
  | .watcher w =>
    match a with
    | .watch a =>
      (w.step policy b.toBusy a).map fun r =>
        ({ b with toBusy := r.1 }, .watcher { w with pc := r.2 }, [])
    | _ => none

def startup (policy : OrphanPolicy) (l : Listing) : Program Boot BootThread BootAnswer Empty where
  entry _ _ := false
  step := BootThread.step snapshot policy l
  env _ o := nomatch o

end Main

abbrev BootConfig := Config Boot BootThread
abbrev BootEvent := PoolEvent BootThread BootAnswer Empty

namespace Listing
variable (l : Listing)

/-- The shared state as the fan-out begins. -/
def boot : Boot where
  tables := .new
  busyCreates := .empty
  nextChan := 0
  closed := []
  orphaned := []
  seen := l.vms.foldl (fun m v => m.set v.id v.state) .empty
  keep := l.vms.map fun v => if v.state = .creating then none else some v
  pending := (l.vms.zipIdx.filter fun x => x.1.state = .creating).map (·.2)
  fate := l.vms.map fun v => if v.state = .creating then .pending else .kept v
  verbs := .empty
  inspects := .empty

def start : BootConfig :=
  ⟨l.boot, .main .fanOut :: (l.vms.zipIdx.filter fun x => x.1.state = .creating).map
    fun x => .closure ⟨x.2, x.1, .verb⟩⟩

end Listing

/-! ### What a restart is to do -/

/-- The verb answers an error or one of the outcomes it has. -/
def DefinedOutcome (_ : BootConfig) : BootEvent → Prop
  | .run _ (.verb (some (.other _))) => False
  | _ => True

instance (c : BootConfig) : (e : BootEvent) → Decidable (DefinedOutcome c e)
  | .run _ (.verb none) | .run _ (.verb (some .collected)) | .run _ (.verb (some .busy))
  | .run _ (.verb (some .notCreating)) | .run _ (.verb (some .notFound)) | .run _ (.inspected _)
  | .run _ (.watch _) | .run _ (.findings _) | .run _ .go | .start _ | .env _ => .isTrue trivial
  | .run _ (.verb (some (.other _))) => .isFalse id

/-- The record of a re-inspect that answered running. -/
def runningAnswer : Option Inspected → Option VM
  | some (.found v) => if v.state = .running then some v else none
  | _ => none

/-- How often a record was given to the orphan policy. -/
def Boot.policyCalls (b : Boot) (x : VMID) : ℕ := b.orphaned.countP (·.id == x)

inductive StaleEnd where
  | freed
  | orphaned
  | held
deriving DecidableEq, Repr

def NotWatched (c : BootConfig) (x : VMID) : Prop :=
  ∀ w, .watcher w ∈ c.threads → w.vmID ≠ x

/-- The one watcher of a record, which has its name as long as it runs. -/
def HeldBy (c : BootConfig) (v : VM) (j : ℕ) : Prop :=
  ∃ w, c.threads[j]? = some (.watcher w) ∧ w.vmID = v.id ∧
    (w.pc ≠ .done → c.shared.busyCreates.get v.name = some w.settled)

def EndsAs (c : BootConfig) (i : ℕ) (v : VM) : StaleEnd → Prop
  | .freed =>
    (c.shared.verbs.get i = some (some .collected) ∨ c.shared.verbs.get i = some (some .notFound) ∨
      c.shared.inspects.get i = some .notFound) ∧
    NotWatched c v.id ∧ c.shared.policyCalls v.id = 0
  | .orphaned => NotWatched c v.id ∧ c.shared.policyCalls v.id = 1
  | .held =>
    (∃ j, HeldBy c v j ∧
      ∀ (k : ℕ) (w : BusyWatcher), c.threads[k]? = some (.watcher w) → w.vmID = v.id → k = j) ∧
    c.shared.policyCalls v.id ≤ 1

/-- An unmanaged pod of the list is adopted from its annotations, which have `x`. -/
def Annotates (l : Listing) (x : VMID) (pod : Pod) : Prop :=
  pod ∈ l.pods ∧ pod.spec.managed = false ∧ pod.vmid = x

/-- Which records are kept, how the others end and that a creating one is not bound; `spare` says
which may all the same be. -/
structure Settles (l : Listing) (spare : VMID → Pod → Prop) (c : BootConfig) : Prop where
  kept : c.shared.pending = [] → c.shared.kept = l.vms.zipIdx.filterMap fun x =>
    if x.1.state = .creating then runningAnswer (c.shared.inspects.get x.2) else some x.1
  ends : ∀ (i : ℕ) (v : VM), l.vms[i]? = some v → v.state = .creating → i ∉ c.shared.pending →
    runningAnswer (c.shared.inspects.get i) = none → ∃! e, EndsAs c i v e
  bound : ∀ x, c.shared.seen.get x = some .creating → ∀ key v,
    c.shared.tables.vmsByPod.get key = some v → v.id = x → ∃ pod, spare x pod ∧ pod.key = key
  named : ∀ x, c.shared.seen.get x = some .creating → ∀ name v,
    c.shared.tables.vmsByName.get name = some v → v.id = x → ∃ pod, spare x pod ∧ pod.spec.vmName = v.name

/-! ### The invariant -/

/-- No record has the ID `x`, but for what the annotations of an unmanaged pod gave. -/
def Clean (l : Listing) (t : Tables) (x : VMID) : Prop :=
  t.Records (fun key v => v.id = x → ∃ pod, Annotates l x pod ∧ pod.key = key)
    (fun v => v.id = x → ∃ pod, Annotates l x pod ∧ pod.spec.vmName = v.name)

structure LeftAlone (l : Listing) (b : Boot) (x : VMID) : Prop where
  clean : Clean l b.tables x
  calls : b.policyCalls x = 0

def SeenSettled (b : Boot) (x : VMID) : Prop := b.seen.get x ≠ some .creating

def FreedBy (b : Boot) (i : ℕ) : Prop :=
  b.verbs.get i = some (some .collected) ∨ b.verbs.get i = some (some .notFound) ∨
    b.inspects.get i = some .notFound

def Fate.Holds (l : Listing) (b : Boot) (i : ℕ) (v : VM) : Fate → Prop
  | .pending => LeftAlone l b v.id
  | .kept u => u.id = v.id ∧ SeenSettled b v.id
  | .freed => LeftAlone l b v.id ∧ FreedBy b i
  | .orphaned => b.policyCalls v.id = 1 ∧ SeenSettled b v.id
  | .held _ => b.policyCalls v.id ≤ 1 ∧ (SeenSettled b v.id ∨ Clean l b.tables v.id)

/-- The record at `i` has the fate `f`, and is kept if its re-inspect says so. -/
structure Fate.Is (l : Listing) (b : Boot) (i : ℕ) (v : VM) (f : Fate) : Prop where
  expected : (if v.state = .creating then runningAnswer (b.inspects.get i) else some v) = f.keep
  holds : f.Holds l b i v

structure BootInv (l : Listing) (b : Boot) : Prop where
  keep : b.keep = b.fate.map Fate.keep
  length : b.fate.length = l.vms.length
  waits : ∀ i : ℕ, b.fate[i]? = some .pending → i ∈ b.pending
  seen : ∀ x s, b.seen.get x = some s → ∃ i : ℕ, ∃ v, l.vms[i]? = some v ∧ v.id = x
  fates : ∀ (i : ℕ) (v : VM) (f : Fate), l.vms[i]? = some v → b.fate[i]? = some f → f.Is l b i v

/-- Before the sweep no record that was kept has met the policy. -/
def KeptUncalled (b : Boot) : Prop :=
  ∀ (i : ℕ) (u : VM), b.fate[i]? = some (.kept u) → b.policyCalls u.id = 0

def MainPC.Inv (l : Listing) (b : Boot) : MainPC → Prop
  | .fanOut => KeptUncalled b
  | .pods todo _ => b.pending = [] ∧ KeptUncalled b ∧ ∀ pod ∈ todo, pod ∈ l.pods
  | .macos todo _ => b.pending = [] ∧ KeptUncalled b ∧
    ∀ pod ∈ todo, pod ∈ l.pods ∧ isMacosSpec pod.spec = true
  | .sweep todo => b.pending = [] ∧ (todo.map VM.id).Nodup ∧
    ∀ v ∈ todo, (∃ i : ℕ, b.fate[i]? = some (.kept v)) ∧ b.policyCalls v.id = 0
  | .done => b.pending = []

structure Closure.Inv (l : Listing) (b : Boot) (x : Closure) : Prop where
  listed : l.vms[x.index]? = some x.v
  pending : x.pc ≠ .done → b.fate[x.index]? = some .pending
  orphan : ∀ v, x.pc = .orphan v → v.id = x.v.id ∧ SeenSettled b x.v.id

/-- A watcher of the record `v` at `i`. -/
structure BusyWatcher.Inv (l : Listing) (b : Boot) (w : BusyWatcher) (i : ℕ) (v : VM) : Prop where
  listed : l.vms[i]? = some v
  vmID : w.vmID = v.id
  name : w.name = v.name
  held : b.fate[i]? = some (.held w.settled)
  made : w.settled < b.nextChan
  busy : w.pc ≠ .done → b.busyCreates.get v.name = some w.settled
  waiting : w.pc.open = true → LeftAlone l b v.id
  settled : ∀ u, w.pc.record = some u → u.id = v.id ∧ SeenSettled b v.id ∧ b.policyCalls v.id = 0

def BootThread.Inv (l : Listing) (b : Boot) (_ : ℕ) : BootThread → Prop
  | .main pc => pc.Inv l b
  | .closure x => x.Inv l b
  | .watcher w => ∃ i v, w.Inv l b i v

theorem getElem?_apart {α β : Type} {f : α → β} {xs : List α} (hnodup : (xs.map f).Nodup) {i k : ℕ}
    {v u : α} (hv : xs[i]? = some v) (hu : xs[k]? = some u) (h : k ≠ i) : f u ≠ f v := by
  intro heq
  have hvm : (xs.map f)[i]? = some (f v) := by rw [List.getElem?_map, hv]; rfl
  have hum : (xs.map f)[k]? = some (f v) := by rw [List.getElem?_map, hu, ← heq]; rfl
  have hlt : k < (xs.map f).length := (List.getElem?_eq_some_iff.mp hum).1
  exact h ((List.getElem?_inj hlt hnodup).mp (hum.trans hvm.symm))

namespace Listing
variable {l : Listing} {i k : ℕ} {v u : VM}

theorem id_ne (hv : l.vms[i]? = some v) (hu : l.vms[k]? = some u) (h : k ≠ i) : u.id ≠ v.id :=
  getElem?_apart l.ids_nodup hv hu h

theorem name_ne (hv : l.vms[i]? = some v) (hu : l.vms[k]? = some u) (h : k ≠ i) : u.name ≠ v.name :=
  getElem?_apart l.names_nodup hv hu h

end Listing

end VkCocoon
