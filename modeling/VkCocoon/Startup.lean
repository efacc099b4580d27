import VkCocoon.Ops

/-!
# StartupReconcile

The tables a restarted provider begins with. What the apiserver, the runtime and
cocoon-macos answer about each pod is an input (`Findings`); the pods of a list
call have pairwise different keys, which `Startup` carries as a field.
-/

namespace VkCocoon
open Lib Tables

inductive ResumeOp where
  | hibernate
  | postClone
  | readyWait
  | classifyNIC
  | snapshot
deriving DecidableEq, Repr

/- An empty lifecycle (a lost creating patch) still records owed work. -/
def lifecycleCreating (pod : Pod) : Bool :=
  match pod.lifecycle with
  | none => true
  | some s => s.state == .creating

def owedOpFor (pod : Pod) (v : Option VM) : Option ResumeOp :=
  match v with
  | none => none
  | some v =>
    if pod.deletionTimestamp || isMacosVM v then none
    else if !pod.spec.managed then if lifecycleCreating pod then some .readyWait else none
    else if pod.hibernate then some .hibernate
    else if !lifecycleCreating pod then
      if pod.pendingSnapshotRef != "" then some .snapshot else none
    else
      match pod.postClone with
      | .failed => none
      | .running => some .postClone
      | .done => some .readyWait
      | _ =>
        if shouldDropNICBeforeHibernate pod.spec then some .classifyNIC
        else if postCloneNeeded pod.spec v then some .postClone
        else some .readyWait

/-- How a flush ends: recorded, refused because another incarnation owns the name, or unsent. -/
inductive FlushEnd where
  | recorded
  | superseded
  | pending
deriving DecidableEq, Repr

structure Findings where
  /-- the record under the annotated VMID in the runtime's list -/
  vmByID : Option VM
  /-- the record under the spec's VM name in the runtime's list -/
  vmByName : Option VM
  /-- the apiserver rejected the runtime annotations because the name is taken -/
  nameTaken : Bool
  /-- what the inspect before lifting a hibernate failure saw: an error, or whether it runs -/
  liftInspect : Option Bool
  liftFlush : FlushEnd
  readyFlush : FlushEnd
  /-- the record `registerMacosVM` builds for a live guest -/
  macosVM : Option VM
  /-- a cocoon-macos record exists but its process is dead -/
  macosDead : Bool
  probeReady : Bool
  now : ℕ

section Startup
variable {S : Type} [DecidableEq S] (snapshot : LifecycleStatus → S)

def endFlush (t : Tables) (pod : Pod) (sent : LifecycleStatus) : FlushEnd → Tables
  | .recorded => t.recordLifecycleFlushed snapshot pod.key pod.uid sent
  | .superseded => t.dropSupersededLifecycle snapshot pod.key pod.uid sent
  | .pending => t

/-- `markReadyPublished`: the staged ready and, when its status patch went out, its flush. -/
def markReadyPublished (t : Tables) (pod : Pod) (f : FlushEnd) : Tables :=
  match t.applyLifecycleLocked pod .ready "" with
  | (t, status, applied) => if applied then endFlush snapshot t pod status f else t

/-- `liftHibernateFailure`, flush included. `none` is the error of the inspect. -/
def liftHibernateFailure (t : Tables) (pod : Pod) (inspect : Option Bool) (f : FlushEnd) :
    Tables × Option Bool :=
  match t.hibernateFailedVMLocked pod.key pod.uid with
  | none => (t, some false)
  | some v =>
    match (if isMacosVM v then some true else inspect) with
    | none => (t, none)
    | some false => (t, some false)
    | some true =>
      match t.liftHibernateFailureLocked pod with
      | (t, lifted, none) => (t, some lifted)
      | (t, lifted, some status) => (endFlush snapshot t pod status f, some lifted)

def liftClearedHibernateFailure (t : Tables) (pod : Pod) (a : Findings) : Tables :=
  if pod.hibernate then t
  else
    match liftHibernateFailure snapshot t pod a.liftInspect a.liftFlush with
    | (t, none) => t.retryOpLater pod 0 a.now
    | (t, some false) => t
    | (t, some true) => markReadyPublished snapshot t pod a.readyFlush

/-- `bindRuntime`; the answer is whether this incarnation owns the key. -/
def bindRuntime (t : Tables) (pod : Pod) (v : VM) (nameTaken : Bool) : Tables × Bool :=
  match t.trackPodIncarnation pod v with
  | (t, false) => (t, false)
  | (t, true) =>
    match t.applyVMRuntime pod v.id v.ip with
    | (t, false) => ((t.detachIncarnation pod.key pod.uid (some v)).1, false)
    | (t, true) =>
      if nameTaken then ((t.detachIncarnation pod.key pod.uid (some v)).1, false) else (t, true)

/-- `trackPod` and then `seedLifecycleIntentFromPod`, which reads the object `trackPod` stamped. -/
def trackAndSeed (t : Tables) (pod : Pod) (v : Option VM) : Tables :=
  (t.trackPodLocked pod v).seedLifecycleIntentFromPod (t.reassertLifecycleLocked pod).2

/-- `reconcileNoVMID` -/
def reconcileNoVMID (t : Tables) (pod : Pod) : Tables :=
  if pod.hibernate then trackAndSeed t pod none else t

/-- The body of the pod loop for every guest but macOS ones. -/
def reconcilePod (t : Tables) (pod : Pod) (a : Findings) : Tables :=
  if !pod.spec.managed && pod.vmid != "" then
    trackAndSeed { t with nextAddr := t.nextAddr + 1 } pod
      (some ⟨t.nextAddr, pod.vmid, pod.spec.vmName, "", .running, pod.ip, "", 0, []⟩)
  else if pod.vmid == "" then
    match (if pod.spec.vmName == "" then none else a.vmByName) with
    | none => reconcileNoVMID t pod
    | some v =>
      match bindRuntime t pod v a.nameTaken with
      | (t, true) => t.seedLifecycleIntentFromPod pod
      | (t, false) => reconcileNoVMID t pod
  else
    match a.vmByID with
    | none =>
      if pod.hibernate then
        trackAndSeed (t.clearRuntimeAnnotations pod)
          { pod with vmid := "", ip := "", postClone := .absent } none
      else t
    | some v => liftClearedHibernateFailure snapshot (trackAndSeed t pod (some v)) pod a

/-- `publishMacosReadiness` -/
def publishMacosReadiness (t : Tables) (pod : Pod) (a : Findings) : Tables :=
  if a.probeReady && !t.lifecycleAlreadyFailed pod then markReadyPublished snapshot t pod a.readyFlush
  else t

/-- `reconcileMacosPod` -/
def reconcileMacosPod (t : Tables) (pod : Pod) (a : Findings) : Tables :=
  if pod.spec.vmName == "" then t
  else
    match a.macosVM with
    | none =>
      if a.macosDead then { t with macosLeftover := t.macosLeftover.set pod.key pod.uid } else t
    | some v =>
      match bindRuntime (t.seedLifecycleIntentFromPod pod) pod v a.nameTaken with
      | (t, false) => t
      | (t, true) =>
        let t := if pod.hibernate then t
          else (liftHibernateFailure snapshot t pod a.liftInspect a.liftFlush).1
        publishMacosReadiness snapshot t pod a

def reconcileOne (t : Tables) (x : Pod × Findings) : Tables :=
  if isMacosSpec x.1.spec then reconcileMacosPod snapshot t x.1 x.2
  else reconcilePod snapshot t x.1 x.2

/-- `dispatchOwedWork`: the claims it takes for the work it resumes. -/
def dispatchOwedWork (t : Tables) : Tables :=
  t.pods.toList.foldl
    (fun t x => if (owedOpFor x.2 (t.vmsByPod.get x.1)).isSome then (t.claimResume x.1).1 else t) t

/-- What a list call of the node's pods returns, with what is found about each of them. -/
structure Startup where
  pods : List (Pod × Findings)
  keys_nodup : (pods.map fun x => x.1.key).Nodup
  /-- the unmatched VMs that the orphan policy keeps -/
  orphans : List VM

/- The macOS guests come last, as in the source. -/
def Startup.order (s : Startup) : List (Pod × Findings) :=
  s.pods.filter (fun x => !isMacosSpec x.1.spec) ++ s.pods.filter fun x => isMacosSpec x.1.spec

def startupReconcile (s : Startup) : Tables :=
  let t := s.order.foldl (reconcileOne snapshot) Tables.new
  dispatchOwedWork (s.orphans.foldl indexOrphanByNameLocked t)

end Startup
end VkCocoon
