import VkCocoon.Lib.GoMap
import VkCocoon.Types

/-!
# The provider's in-memory tables and their critical sections

`Tables` holds the maps that `Provider.mu` guards. Each function below is one
critical section of the source, under the source's name: a state in, a state out.
`nextAddr` is the allocator of VM records; a copy-on-write update publishes a
record at a new address.
-/

namespace VkCocoon
open Lib

structure OpRetry where
  delay : ℕ
  due : ℕ
deriving DecidableEq, Repr

structure Tables where
  pods : GoMap Key Pod
  vmsByPod : GoMap Key VM
  vmsByName : GoMap String VM
  macosVNC : GoMap Key ℕ
  macosLeftover : GoMap Key UID
  lastRestart : GoMap VMID ℕ
  pendingRecheck : GoMap VMID Unit
  resumedOps : GoMap Key Unit
  lifecycleIntent : GoMap Key LifecycleEntry
  deleting : GoMap Key Unit
  hibernating : GoMap Key Bool
  opRetries : GoMap Key OpRetry
  podLocks : GoMap Key ℕ
  nextAddr : ℕ

namespace Tables

/-- `NewProvider` -/
def new : Tables where
  pods := .empty
  vmsByPod := .empty
  vmsByName := .empty
  macosVNC := .empty
  macosLeftover := .empty
  lastRestart := .empty
  pendingRecheck := .empty
  resumedOps := .empty
  lifecycleIntent := .empty
  deleting := .empty
  hibernating := .empty
  opRetries := .empty
  podLocks := .empty
  nextAddr := 0

/-! ### Reads -/

def deletingLocked (t : Tables) (key : Key) : Bool := t.deleting.has key

def supersededLocked (t : Tables) (key : Key) (uid : UID) : Bool :=
  (t.pods.get key).any (·.uid != uid)

def trackedPodMatches (t : Tables) (key : Key) (uid : UID) : Bool :=
  (t.pods.get key).any (·.uid == uid)

/-- The entries `podForVMMatch` may return; it returns nothing only when there is none. -/
def podForVMMatch (t : Tables) (id : VMID) (name : String) : List (Key × VM) :=
  t.vmsByPod.picks fun key tracked =>
    !isMacosVM tracked && t.pods.has key && (tracked.id == id || (name != "" && tracked.name == name))

/-! ### Tracking -/

def setVMLocked (t : Tables) (key : Key) (v : VM) : Tables :=
  { t with
    vmsByPod := t.vmsByPod.set key v
    vmsByName := if v.name != "" then t.vmsByName.set v.name v else t.vmsByName }

def dropVMLocked (t : Tables) (key : Key) : Tables :=
  match t.vmsByPod.get key with
  | none => t
  | some v =>
    { t with
      lastRestart := t.lastRestart.del v.id
      vmsByName :=
        if (t.vmsByName.get v.name).any (·.addr == v.addr) then t.vmsByName.del v.name
        else t.vmsByName
      vmsByPod := t.vmsByPod.del key }

/-- The tables after the re-stamp, and the pod as it now reads. -/
def reassertLifecycleLocked (t : Tables) (pod : Pod) : Tables × Pod :=
  match t.lifecycleIntent.get pod.key with
  | none => (t, pod)
  | some cur =>
    if cur.uid != pod.uid then
      ({ t with lifecycleIntent := t.lifecycleIntent.del pod.key }, pod)
    else (t, cur.status.apply pod)

def trackPodLocked (t : Tables) (pod : Pod) (v : Option VM) : Tables :=
  let (t, pod) := t.reassertLifecycleLocked pod
  let t := { t with pods := t.pods.set pod.key pod }
  match v with
  | none => t
  | some v => t.setVMLocked pod.key v

def trackPodUnlessDeleting (t : Tables) (pod : Pod) (v : Option VM) : Tables × Bool :=
  if t.deletingLocked pod.key then (t, false) else (t.trackPodLocked pod v, true)

def indexOrphanByNameLocked (t : Tables) (v : VM) : Tables :=
  if v.name == "" then t else { t with vmsByName := t.vmsByName.set v.name v }

def trackPodIncarnation (t : Tables) (pod : Pod) (v : VM) : Tables × Bool :=
  if t.deletingLocked pod.key || t.supersededLocked pod.key pod.uid then
    (t.indexOrphanByNameLocked v, false)
  else (t.trackPodLocked pod (some v), true)

def untrackLocked (t : Tables) (key : Key) : Tables :=
  let t := t.dropVMLocked key
  { t with
    pods := t.pods.del key
    macosVNC := t.macosVNC.del key
    macosLeftover := t.macosLeftover.del key
    lifecycleIntent := t.lifecycleIntent.del key
    opRetries := t.opRetries.del key
    podLocks := t.podLocks.del key }

def untrackIncarnationLocked (t : Tables) (key : Key) (uid : UID) : Tables × Bool :=
  if t.trackedPodMatches key uid then (t.untrackLocked key, true) else (t, false)

def forgetPod (t : Tables) (key : Key) : Tables := t.untrackLocked key

/-- A detached VM stays adoptable by name, unless the key is bound to one of that name. -/
def indexDetached (t : Tables) (key : Key) : Option VM → Tables
  | none => t
  | some v =>
    if (t.vmsByPod.get key).any (·.name == v.name) then t else t.indexOrphanByNameLocked v

def detachIncarnation (t : Tables) (key : Key) (uid : UID) (v : Option VM) : Tables × Bool :=
  if t.deletingLocked key then (t, false)
  else ((t.untrackIncarnationLocked key uid).1.indexDetached key v, true)

def forgetVMOnly (t : Tables) (key : Key) : Tables := t.dropVMLocked key

/-! ### The teardown fence -/

inductive DeleteClaim where
  | claimed
  | inFlight
  | superseded
deriving DecidableEq, Repr

def claimDeletingIncarnation (t : Tables) (key : Key) (uid : UID) (vmID : VMID) : Tables × Bool :=
  if t.deletingLocked key then (t, false)
  else if (t.pods.get key).any (·.uid == uid) && (t.vmsByPod.get key).any (·.id == vmID) then
    ({ t with deleting := t.deleting.set key () }, true)
  else (t, false)

def claimDeleting (t : Tables) (key : Key) (uid : UID) : Tables × DeleteClaim :=
  if t.supersededLocked key uid then (t, .superseded)
  else if t.deletingLocked key then (t, .inFlight)
  else ({ t with deleting := t.deleting.set key () }, .claimed)

def finishDeleting (t : Tables) (key : Key) : Tables := { t with deleting := t.deleting.del key }

/-! ### The tracked VM record -/

/-- The `mutate` closures the source passes to `updateTrackedVM`. None of them writes the ID. -/
inductive VMMutation where
  /-- `setVMIP` -/
  | ip (ip : String)
  /-- the re-inspect after a restart -/
  | restarted (pid : ℤ) (networkConfigs : List NetworkConfig)
  /-- `refreshRolledBackNIC`; `none` when the inspect failed -/
  | rolledBackNIC (fresh : Option VM)
  /-- `applyMacosRecord`; `none` for a record without a tap -/
  | macosRecord (pid : ℤ) (mac : String) (networkConfigs : Option (List NetworkConfig))
deriving DecidableEq, Repr

def VMMutation.apply : VMMutation → VM → VM
  | .ip a, v => { v with ip := a }
  | .restarted pid ncs, v => { v with pid := pid, networkConfigs := ncs }
  | .rolledBackNIC none, v => { v with ip := "" }
  | .rolledBackNIC (some fresh), v =>
    { v with
      mac := fresh.mac
      networkConfigs := fresh.networkConfigs
      ip := if fresh.networkConfigs.head?.any isStaticNIC then fresh.ip else "" }
  | .macosRecord pid mac ncs, v =>
    { v with pid := pid, mac := mac, networkConfigs := ncs.getD v.networkConfigs }

/-- The tables and the record the source returns, `none` for nil. -/
def updateTrackedVM (t : Tables) (key : Key) (vmID : VMID) (m : VMMutation) :
    Tables × Option VM :=
  match t.vmsByPod.get key with
  | none => (t, none)
  | some v =>
    if v.id != vmID then (t, none)
    else
      let updated := { m.apply v with addr := t.nextAddr }
      ({ t.setVMLocked key updated with nextAddr := t.nextAddr + 1 }, some updated)

/-! ### Lifecycle intent -/

/-- The generation `applyLifecycleLocked` stamps. -/
def stampedGeneration (t : Tables) (pod : Pod) : ℤ :=
  match t.pods.get pod.key with
  | none => pod.generation
  | some tracked =>
    if tracked.uid != pod.uid then pod.generation else max pod.generation tracked.generation

/-- The four early returns of `applyLifecycleLocked`. -/
def refusesLifecycle (t : Tables) (pod : Pod) (status : LifecycleStatus) : Bool :=
  t.supersededLocked pod.key pod.uid ||
  match t.lifecycleIntent.get pod.key with
  | none => false
  | some cur =>
    if cur.uid != pod.uid then !t.pods.has pod.key
    else
      decide (status.observedGeneration < cur.status.observedGeneration) ||
      (cur.status.state == .failed && status.state != .failed && status.state != .creating &&
        status.state != .hibernating &&
        status.observedGeneration == cur.status.observedGeneration)

def applyLifecycleLocked (t : Tables) (pod : Pod) (state : LifecycleState) (message : String) :
    Tables × LifecycleStatus × Bool :=
  let status : LifecycleStatus := ⟨state, t.stampedGeneration pod, message⟩
  if t.refusesLifecycle pod status then (t, status, false)
  else
    ({ t with
        lifecycleIntent := t.lifecycleIntent.set pod.key ⟨pod.uid, status, none⟩
        pods :=
          match t.pods.get pod.key with
          | none => t.pods
          | some tracked => t.pods.set pod.key (status.apply tracked) },
      status, true)

def setLifecycleStateForWake (t : Tables) (pod : Pod) (wakeVMID : VMID) (state : LifecycleState)
    (message : String) : Tables × Option LifecycleStatus :=
  if (t.pods.get pod.key).any (!·.hibernate) && (t.vmsByPod.get pod.key).any (·.id == wakeVMID) then
    match t.applyLifecycleLocked pod state message with
    | (t, status, applied) => (t, if applied then some status else none)
  else (t, none)

def hibernateFailedVMLocked (t : Tables) (key : Key) (uid : UID) : Option VM :=
  match t.lifecycleIntent.get key with
  | none => none
  | some cur =>
    if cur.uid != uid || cur.status.state != .failed ||
        !hasHibernateFailurePrefix cur.status.message then none
    else t.vmsByPod.get key

/-- The second section of `liftHibernateFailure`; the status is the one to flush. -/
def liftHibernateFailureLocked (t : Tables) (pod : Pod) : Tables × Bool × Option LifecycleStatus :=
  match t.hibernateFailedVMLocked pod.key pod.uid with
  | none => (t, false, none)
  | some _ =>
    match t.applyLifecycleLocked pod .creating "" with
    | (t, status, applied) => (t, true, if applied then some status else none)

def republishLifecycleOnGenerationBump (t : Tables) (pod : Pod) : Tables × Option LifecycleStatus :=
  match t.lifecycleIntent.get pod.key with
  | none => (t, none)
  | some cur =>
    if cur.uid != pod.uid || decide (pod.generation ≤ cur.status.observedGeneration) then (t, none)
    else
      match t.applyLifecycleLocked pod cur.status.state cur.status.message with
      | (t, status, applied) => (t, if applied then some status else none)

def seedLifecycleIntentFromPod (t : Tables) (pod : Pod) : Tables :=
  match pod.lifecycle with
  | none => t
  | some status =>
    { t with lifecycleIntent := t.lifecycleIntent.set pod.key ⟨pod.uid, status, some status⟩ }

def lifecycleAlreadyFailed (t : Tables) (pod : Pod) : Bool :=
  (t.lifecycleIntent.get pod.key).any fun cur => cur.uid == pod.uid && cur.status.state == .failed

end Tables

section Snapshot
/- `LifecycleStatus.Snapshot()` is a method of cocoon-common: a text by which the
provider compares two statuses. -/
variable {S : Type} [DecidableEq S] (snapshot : LifecycleStatus → S)

/-- `intent.flushed == intent.status.Snapshot()`: no later pass flushes this entry. -/
def LifecycleEntry.settled (e : LifecycleEntry) : Bool :=
  e.flushed.any fun f => snapshot f == snapshot e.status

namespace Tables

def lifecycleOwnedLocked (t : Tables) (key : Key) (uid : UID) (snap : S) : Bool :=
  (t.lifecycleIntent.get key).any fun cur => cur.uid == uid && snapshot cur.status == snap

/-- `snap` is the snapshot of the status that was sent. -/
def recordLifecycleFlushed (t : Tables) (key : Key) (uid : UID) (sent : LifecycleStatus) : Tables :=
  match t.lifecycleIntent.get key with
  | none => t
  | some cur =>
    if t.lifecycleOwnedLocked snapshot key uid (snapshot sent) then
      { t with lifecycleIntent := t.lifecycleIntent.set key { cur with flushed := some sent } }
    else t

def dropSupersededLifecycle (t : Tables) (key : Key) (uid : UID) (sent : LifecycleStatus) : Tables :=
  if t.lifecycleOwnedLocked snapshot key uid (snapshot sent) then
    { t with lifecycleIntent := t.lifecycleIntent.del key }
  else t

end Tables
end Snapshot

namespace Tables

/-- The locked section of `failCreate`; `absent` is `macosVMAbsent`. -/
def failCreate (t : Tables) (pod : Pod) (absent : Bool) : Tables :=
  if t.supersededLocked pod.key pod.uid then t
  else
    let t := { t with pods := t.pods.del pod.key }
    if absent then
      { t with
        macosVNC := t.macosVNC.del pod.key
        macosLeftover := t.macosLeftover.del pod.key }
    else if isMacosSpec pod.spec then
      { t with macosLeftover := t.macosLeftover.set pod.key pod.uid }
    else t

/-! ### Annotations of the pod object

The source writes through a pointer; the tracked pod changes when it is that object. -/

def mutatePod (t : Tables) (pod : Pod) (f : Pod → Pod) : Tables :=
  match t.pods.get pod.key with
  | none => t
  | some tracked =>
    if tracked.ref == pod.ref then { t with pods := t.pods.set pod.key (f tracked) } else t

/-- The locked section of `markPostCloneState`. The result says whether the patch is sent. -/
def markPostCloneState (t : Tables) (pod : Pod) (state : PostCloneState) : Tables × Bool :=
  if t.supersededLocked pod.key pod.uid then (t, false)
  else
    match t.pods.get pod.key with
    | none => (t, state == .failed || pod.postClone != .failed)
    | some target =>
      if state != .failed && target.postClone == .failed then (t, false)
      else ({ t with pods := t.pods.set pod.key { target with postClone := state } }, true)

/-- The locked section of `clearRuntimeAnnotations`. -/
def clearRuntimeAnnotations (t : Tables) (pod : Pod) : Tables :=
  if t.supersededLocked pod.key pod.uid then t
  else t.mutatePod pod fun p => { p with vmid := "", ip := "", postClone := .absent }

/-- The locked section of `applyVMRuntime`. -/
def applyVMRuntime (t : Tables) (pod : Pod) (vmid : VMID) (ip : String) : Tables × Bool :=
  if t.supersededLocked pod.key pod.uid then (t, false)
  else (t.mutatePod pod fun p => { p with vmid := vmid, ip := ip }, true)

/-- The locked section of `setPodAnnotation` for the post-clone marker. -/
def setPodAnnotationPostClone (t : Tables) (pod : Pod) (state : PostCloneState) : Tables :=
  if t.supersededLocked pod.key pod.uid then t
  else t.mutatePod pod fun p => { p with postClone := state }

/-! ### Hibernate flag, resumes, retries, restarts -/

def startHibernate (t : Tables) (key : Key) : Tables :=
  { t with hibernating := t.hibernating.set key false }

def finishHibernate (t : Tables) (key : Key) : Tables × Bool :=
  ({ t with hibernating := t.hibernating.del key }, (t.hibernating.get key).getD false)

/-- The flag section of `handleVMGone`: `midHibernate` and `midDelete`. -/
def noteVMGone (t : Tables) (key : Key) : Tables × Bool × Bool :=
  (if t.hibernating.has key then { t with hibernating := t.hibernating.set key true } else t,
    t.hibernating.has key, t.deletingLocked key)

/-- `scheduleDeferredRecheck` once it has found no goroutine for the VM. -/
def addPendingRecheck (t : Tables) (vmID : VMID) : Tables :=
  { t with pendingRecheck := t.pendingRecheck.set vmID () }

/-- The deferred function of `runDeferredRecheck`. -/
def dropPendingRecheck (t : Tables) (vmID : VMID) : Tables :=
  { t with pendingRecheck := t.pendingRecheck.del vmID }

def claimResume (t : Tables) (key : Key) : Tables × Bool :=
  if t.resumedOps.has key then (t, false)
  else ({ t with resumedOps := t.resumedOps.set key () }, true)

def releaseResume (t : Tables) (key : Key) : Tables := { t with resumedOps := t.resumedOps.del key }

def opRetryBaseDelay : ℕ := 15
def opRetryMaxDelay : ℕ := 300

def takeOpRetry (t : Tables) (key : Key) : Tables × ℕ :=
  ({ t with opRetries := t.opRetries.del key }, ((t.opRetries.get key).map (·.delay)).getD 0)

def retryOpLater (t : Tables) (pod : Pod) (prev now : ℕ) : Tables :=
  let delay := if min (prev * 2) opRetryMaxDelay = 0 then opRetryBaseDelay
    else min (prev * 2) opRetryMaxDelay
  if t.trackedPodMatches pod.key pod.uid then
    { t with opRetries := t.opRetries.set pod.key ⟨delay, now + delay⟩ }
  else t

def restartCooldown : ℕ := 30

/-- The cooldown section of `handleVMGone`; the result is `cooldownElapsed`. -/
def takeRestart (t : Tables) (vmID : VMID) (now : ℕ) : Tables × Bool :=
  if (t.lastRestart.get vmID).any fun last => decide (now < last + restartCooldown) then (t, false)
  else ({ t with lastRestart := t.lastRestart.set vmID now }, true)

/-- The section of `adoptableVM` that drops an index entry whose VM is gone. -/
def dropStaleIndex (t : Tables) (name : String) (existing : VM) : Tables :=
  if (t.vmsByName.get name).any (·.addr == existing.addr) then
    { t with vmsByName := t.vmsByName.del name }
  else t

/-! ### What the sections leave alone

One lemma for each section and each of the entries the protocols read. -/

variable (t : Tables) (key k : Key) (uid : UID) (pod : Pod) (v : VM)

@[simp] theorem setVMLocked_pods : (t.setVMLocked key v).pods = t.pods := rfl
@[simp] theorem setVMLocked_lifecycleIntent :
    (t.setVMLocked key v).lifecycleIntent = t.lifecycleIntent := rfl
@[simp] theorem setVMLocked_vmsByPod : (t.setVMLocked key v).vmsByPod = t.vmsByPod.set key v := rfl
@[simp] theorem setVMLocked_deleting : (t.setVMLocked key v).deleting = t.deleting := rfl

theorem dropVMLocked_eq : t.dropVMLocked key =
    { t with
      vmsByPod := (t.dropVMLocked key).vmsByPod
      vmsByName := (t.dropVMLocked key).vmsByName
      lastRestart := (t.dropVMLocked key).lastRestart } := by
  unfold dropVMLocked
  split <;> rfl

@[simp] theorem dropVMLocked_pods : (t.dropVMLocked key).pods = t.pods := by
  rw [dropVMLocked_eq]
@[simp] theorem dropVMLocked_lifecycleIntent :
    (t.dropVMLocked key).lifecycleIntent = t.lifecycleIntent := by
  rw [dropVMLocked_eq]
@[simp] theorem dropVMLocked_deleting : (t.dropVMLocked key).deleting = t.deleting := by
  rw [dropVMLocked_eq]

theorem dropVMLocked_vmsByPod :
    (t.dropVMLocked key).vmsByPod.get k = if k = key then none else t.vmsByPod.get k := by
  unfold dropVMLocked
  cases h : t.vmsByPod.get key with
  | none =>
    by_cases hk : k = key
    · subst hk
      simp only [if_true, h]
    · simp only [if_neg hk]
  | some v => exact GoMap.get_del _ _ _

theorem untrackLocked_pods :
    (t.untrackLocked key).pods.get k = if k = key then none else t.pods.get k := by
  simp only [untrackLocked, dropVMLocked_pods, GoMap.get_del]
theorem untrackLocked_vmsByPod :
    (t.untrackLocked key).vmsByPod.get k = if k = key then none else t.vmsByPod.get k := by
  simp only [untrackLocked, dropVMLocked_vmsByPod]
theorem untrackLocked_lifecycleIntent :
    (t.untrackLocked key).lifecycleIntent.get k =
      if k = key then none else t.lifecycleIntent.get k := by
  simp only [untrackLocked, dropVMLocked_lifecycleIntent, GoMap.get_del]
@[simp] theorem untrackLocked_deleting : (t.untrackLocked key).deleting = t.deleting := by
  simp only [untrackLocked, dropVMLocked_deleting]

@[simp] theorem indexOrphanByNameLocked_pods :
    (t.indexOrphanByNameLocked v).pods = t.pods := by
  unfold indexOrphanByNameLocked
  split <;> rfl
@[simp] theorem indexOrphanByNameLocked_vmsByPod :
    (t.indexOrphanByNameLocked v).vmsByPod = t.vmsByPod := by
  unfold indexOrphanByNameLocked
  split <;> rfl
@[simp] theorem indexOrphanByNameLocked_lifecycleIntent :
    (t.indexOrphanByNameLocked v).lifecycleIntent = t.lifecycleIntent := by
  unfold indexOrphanByNameLocked
  split <;> rfl
@[simp] theorem indexOrphanByNameLocked_deleting :
    (t.indexOrphanByNameLocked v).deleting = t.deleting := by
  unfold indexOrphanByNameLocked
  split <;> rfl

/-! ### Tracking -/

theorem reassertLifecycleLocked_eq : (t.reassertLifecycleLocked pod).1 =
    { t with lifecycleIntent := (t.reassertLifecycleLocked pod).1.lifecycleIntent } := by
  unfold reassertLifecycleLocked
  split
  · rfl
  · split <;> rfl

theorem reassertLifecycleLocked_intent :
    (t.reassertLifecycleLocked pod).1.lifecycleIntent.get k =
      if k = pod.key then (t.lifecycleIntent.get k).filter (·.uid == pod.uid)
      else t.lifecycleIntent.get k := by
  unfold reassertLifecycleLocked
  cases h : t.lifecycleIntent.get pod.key with
  | none =>
    by_cases hk : k = pod.key
    · subst hk
      simp [h]
    · simp [hk]
  | some cur =>
    by_cases hu : cur.uid = pod.uid
    · by_cases hk : k = pod.key
      · subst hk
        simp [h, hu, Option.filter_some]
      · simp [hk, hu]
    · by_cases hk : k = pod.key
      · subst hk
        simp [h, hu, Option.filter_some]
      · simp [hk, hu, GoMap.get_del]

/-- The re-stamp writes the pod's lifecycle annotations and nothing else. -/
theorem reassertLifecycleLocked_pod :
    ∃ l, (t.reassertLifecycleLocked pod).2 = { pod with lifecycle := l } := by
  unfold reassertLifecycleLocked
  split
  · exact ⟨pod.lifecycle, rfl⟩
  · split
    · exact ⟨pod.lifecycle, rfl⟩
    · exact ⟨_, rfl⟩

theorem trackPodLocked_eq (w : Option VM) : ∃ l, t.trackPodLocked pod w =
    match w with
    | none =>
      { t with
        lifecycleIntent := (t.reassertLifecycleLocked pod).1.lifecycleIntent
        pods := t.pods.set pod.key { pod with lifecycle := l } }
    | some v =>
      ({ t with
        lifecycleIntent := (t.reassertLifecycleLocked pod).1.lifecycleIntent
        pods := t.pods.set pod.key { pod with lifecycle := l } } : Tables).setVMLocked pod.key v := by
  obtain ⟨l, hl⟩ := t.reassertLifecycleLocked_pod pod
  have ht := t.reassertLifecycleLocked_eq pod
  refine ⟨l, ?_⟩
  unfold trackPodLocked
  rw [← Prod.eta (t.reassertLifecycleLocked pod)]
  dsimp only
  rw [hl]
  generalize (t.reassertLifecycleLocked pod).1 = t' at ht ⊢
  rw [ht]
  cases w <;> rfl

theorem trackPodLocked_pods (w : Option VM) : ∃ l, ∀ k,
    (t.trackPodLocked pod w).pods.get k =
      if k = pod.key then some { pod with lifecycle := l } else t.pods.get k := by
  obtain ⟨l, hl⟩ := t.trackPodLocked_eq pod w
  refine ⟨l, fun k => ?_⟩
  rw [hl]
  cases w <;> exact GoMap.get_set _ _ _ _

theorem trackPodLocked_intent (w : Option VM) :
    (t.trackPodLocked pod w).lifecycleIntent.get k =
      if k = pod.key then (t.lifecycleIntent.get k).filter (·.uid == pod.uid)
      else t.lifecycleIntent.get k := by
  obtain ⟨l, hl⟩ := t.trackPodLocked_eq pod w
  rw [← reassertLifecycleLocked_intent, hl]
  cases w <;> rfl

theorem trackPodLocked_vmsByPod (w : Option VM) :
    (t.trackPodLocked pod w).vmsByPod.get k =
      if k = pod.key then w.or (t.vmsByPod.get k) else t.vmsByPod.get k := by
  obtain ⟨l, hl⟩ := t.trackPodLocked_eq pod w
  rw [hl]
  cases w with
  | none => simp
  | some v => simp [GoMap.get_set]

@[simp] theorem trackPodLocked_deleting (w : Option VM) :
    (t.trackPodLocked pod w).deleting = t.deleting := by
  obtain ⟨l, hl⟩ := t.trackPodLocked_eq pod w
  rw [hl]
  cases w <;> rfl

theorem indexOrphanByNameLocked_eq :
    ∃ names, t.indexOrphanByNameLocked v = { t with vmsByName := names } := by
  unfold indexOrphanByNameLocked
  split
  · exact ⟨t.vmsByName, rfl⟩
  · exact ⟨_, rfl⟩

theorem untrackIncarnationLocked_cases :
    (t.untrackIncarnationLocked key uid).1 = t ∨
    (t.trackedPodMatches key uid = true ∧
      (t.untrackIncarnationLocked key uid).1 = t.untrackLocked key) := by
  unfold untrackIncarnationLocked
  split
  · exact Or.inr ⟨‹_›, rfl⟩
  · exact Or.inl rfl

theorem indexDetached_eq (w : Option VM) :
    ∃ names, t.indexDetached key w = { t with vmsByName := names } := by
  cases w with
  | none => exact ⟨t.vmsByName, rfl⟩
  | some v =>
    dsimp only [indexDetached]
    split
    · exact ⟨t.vmsByName, rfl⟩
    · exact t.indexOrphanByNameLocked_eq v

theorem detachIncarnation_cases (w : Option VM) : ∃ names,
    (t.detachIncarnation key uid w).1 = { t with vmsByName := names } ∨
    (t.deletingLocked key = false ∧ t.trackedPodMatches key uid = true ∧
      (t.detachIncarnation key uid w).1 = { t.untrackLocked key with vmsByName := names }) := by
  unfold detachIncarnation
  by_cases hd : t.deletingLocked key = true
  · rw [if_pos hd]
    exact ⟨t.vmsByName, Or.inl rfl⟩
  · rw [if_neg hd]
    obtain ⟨names, hn⟩ := (t.untrackIncarnationLocked key uid).1.indexDetached_eq key w
    refine ⟨names, ?_⟩
    rcases t.untrackIncarnationLocked_cases key uid with h | ⟨hm, h⟩
    · rw [h] at hn
      exact Or.inl (by rw [h]; exact hn)
    · rw [h] at hn
      exact Or.inr ⟨by simpa using hd, hm, by rw [h]; exact hn⟩

/-! ### The name index -/

theorem setVMLocked_vmsByName (name : String) :
    (t.setVMLocked key v).vmsByName.get name =
      if name = v.name ∧ v.name ≠ "" then some v else t.vmsByName.get name := by
  by_cases hempty : v.name = ""
  · simp [setVMLocked, hempty]
  · simp [setVMLocked, hempty, GoMap.get_set]

theorem indexOrphanByNameLocked_vmsByName (name : String) :
    (t.indexOrphanByNameLocked v).vmsByName.get name =
      if name = v.name ∧ v.name ≠ "" then some v else t.vmsByName.get name := by
  by_cases hempty : v.name = ""
  · simp [indexOrphanByNameLocked, hempty]
  · simp [indexOrphanByNameLocked, hempty, GoMap.get_set]

/- A drop takes the entry of its own record out, which it tells by the address. -/
theorem dropVMLocked_vmsByName (name : String) :
    (t.dropVMLocked key).vmsByName.get name = t.vmsByName.get name ∨
    ((t.dropVMLocked key).vmsByName.get name = none ∧ ∃ v u, t.vmsByPod.get key = some v ∧
      v.name = name ∧ t.vmsByName.get name = some u ∧ u.addr = v.addr) := by
  unfold dropVMLocked
  cases hv : t.vmsByPod.get key with
  | none => exact Or.inl rfl
  | some v =>
    dsimp only
    split
    next hany =>
      obtain ⟨u, hu, haddr⟩ := (Option.any_eq_true _ _).mp hany
      by_cases hname : name = v.name
      · subst hname
        exact Or.inr ⟨GoMap.get_del_self _ _, v, u, rfl, rfl, hu, by simpa using haddr⟩
      · exact Or.inl (GoMap.get_del_ne _ hname)
    next => exact Or.inl rfl

theorem untrackLocked_vmsByName :
    (t.untrackLocked key).vmsByName = (t.dropVMLocked key).vmsByName := rfl

theorem untrackLocked_named {t : Tables} {key : Key} {name : String} {r : VM}
    (hr : (t.untrackLocked key).vmsByName.get name = some r) : t.vmsByName.get name = some r := by
  rw [untrackLocked_vmsByName] at hr
  rcases t.dropVMLocked_vmsByName key name with hsame | ⟨hnone, -⟩
  · rwa [hsame] at hr
  · rw [hnone] at hr
    cases hr

theorem untrackLocked_bound {t : Tables} {key k : Key} {r : VM}
    (hr : (t.untrackLocked key).vmsByPod.get k = some r) : t.vmsByPod.get k = some r := by
  rw [untrackLocked_vmsByPod] at hr
  split at hr
  · cases hr
  · exact hr

theorem untrackLocked_nextAddr : (t.untrackLocked key).nextAddr = t.nextAddr := by
  unfold untrackLocked
  rw [dropVMLocked_eq]

theorem trackPodLocked_vmsByName (w : Option VM) (name : String) :
    (t.trackPodLocked pod w).vmsByName.get name = t.vmsByName.get name ∨
    ∃ u, w = some u ∧ u.name = name ∧ (t.trackPodLocked pod w).vmsByName.get name = some u := by
  obtain ⟨l, hl⟩ := t.trackPodLocked_eq pod w
  cases w with
  | none =>
    left
    rw [hl]
  | some u =>
    rw [hl]
    dsimp only
    rw [setVMLocked_vmsByName]
    split
    next h => exact Or.inr ⟨u, rfl, h.1.symm, rfl⟩
    next => exact Or.inl rfl

theorem indexDetached_vmsByName (w : Option VM) (name : String) :
    (t.indexDetached key w).vmsByName.get name = t.vmsByName.get name ∨
    ∃ u, w = some u ∧ u.name = name ∧ (t.indexDetached key w).vmsByName.get name = some u := by
  cases w with
  | none => exact Or.inl rfl
  | some u =>
    dsimp only [indexDetached]
    split
    · exact Or.inl rfl
    · rw [indexOrphanByNameLocked_vmsByName]
      split
      next h => exact Or.inr ⟨u, rfl, h.1.symm, rfl⟩
      next => exact Or.inl rfl

theorem trackPodIncarnation_index {name : String} (hv : v.name = name) (hne : name ≠ "") :
    (t.trackPodIncarnation pod v).1.vmsByName.get name = some v := by
  subst hv
  unfold trackPodIncarnation
  split
  · exact (indexOrphanByNameLocked_vmsByName t v v.name).trans (if_pos ⟨rfl, hne⟩)
  · obtain ⟨l, hl⟩ := t.trackPodLocked_eq pod (some v)
    rw [hl]
    exact (setVMLocked_vmsByName _ _ v v.name).trans (if_pos ⟨rfl, hne⟩)

theorem indexDetached_of_free (h : t.vmsByPod.get key = none) :
    t.indexDetached key (some v) = t.indexOrphanByNameLocked v := by
  simp only [indexDetached, h, Option.any_none, Bool.false_eq_true, if_false]

/- A detached VM is left in the index, or takes the place of what is there. -/
theorem detachIncarnation_index {name : String} (hv : v.name = name) (hne : name ≠ "") :
    (t.detachIncarnation key uid (some v)).1.vmsByName.get name = t.vmsByName.get name ∨
      (t.detachIncarnation key uid (some v)).1.vmsByName.get name = some v := by
  subst hv
  unfold detachIncarnation
  split
  · exact Or.inl rfl
  · rcases t.untrackIncarnationLocked_cases key uid with h | ⟨-, h⟩
    · rw [h]
      refine (indexDetached_vmsByName t key (some v) v.name).imp_right ?_
      rintro ⟨u, hu, -, hget⟩
      cases hu
      exact hget
    · right
      have hfree : (t.untrackLocked key).vmsByPod.get key = none := by
        rw [untrackLocked_vmsByPod, if_pos rfl]
      rw [h]
      dsimp only
      rw [indexDetached_of_free _ _ _ hfree]
      exact (indexOrphanByNameLocked_vmsByName _ v v.name).trans (if_pos ⟨rfl, hne⟩)

theorem dropStaleIndex_cases (name : String) (existing : VM) :
    t.dropStaleIndex name existing = t ∨
      ((t.dropStaleIndex name existing).vmsByName.get name = none ∧
        ∃ u, t.vmsByName.get name = some u ∧ u.addr = existing.addr) := by
  unfold dropStaleIndex
  split
  next hany =>
    obtain ⟨u, hu, haddr⟩ := (Option.any_eq_true _ _).mp hany
    exact Or.inr ⟨GoMap.get_del_self _ _, u, hu, by simpa using haddr⟩
  next => exact Or.inl rfl

/-! ### The claims of a teardown -/

/- A claim that is refused changes nothing; one that is granted marks a key that was free. -/
theorem claimDeleting_cases (t : Tables) (key : Key) (uid : UID) :
    (t.claimDeleting key uid).2 ≠ .claimed ∧ (t.claimDeleting key uid).1 = t ∨
      t.deletingLocked key = false ∧
        t.claimDeleting key uid = ({ t with deleting := t.deleting.set key () }, .claimed) := by
  unfold claimDeleting
  split
  · exact Or.inl ⟨fun h => (by cases h), rfl⟩
  · split
    next => exact Or.inl ⟨fun h => (by cases h), rfl⟩
    next hfree => exact Or.inr ⟨Bool.eq_false_iff.mpr hfree, rfl⟩

theorem claimDeletingIncarnation_bound {t t' : Tables} {key : Key} {uid : UID} {vmID : VMID}
    (h : t.claimDeletingIncarnation key uid vmID = (t', true)) :
    ∃ u, t.vmsByPod.get key = some u ∧ u.id = vmID := by
  unfold claimDeletingIncarnation at h
  split at h
  next => cases h
  next =>
    split at h
    next hc =>
      obtain ⟨u, hu, hid⟩ := (Option.any_eq_true _ _).mp (Bool.and_eq_true_iff.mp hc).2
      exact ⟨u, hu, by simpa using hid⟩
    next => cases h

/-! ### The lifecycle write -/

theorem applyLifecycleLocked_of_refused (state : LifecycleState) (message : String)
    (h : t.refusesLifecycle pod ⟨state, t.stampedGeneration pod, message⟩ = true) :
    t.applyLifecycleLocked pod state message =
      (t, ⟨state, t.stampedGeneration pod, message⟩, false) := by
  unfold applyLifecycleLocked
  exact if_pos h

theorem applyLifecycleLocked_of_accepted (state : LifecycleState) (message : String)
    (h : t.refusesLifecycle pod ⟨state, t.stampedGeneration pod, message⟩ = false) :
    t.applyLifecycleLocked pod state message =
      ({ t with
          lifecycleIntent := t.lifecycleIntent.set pod.key
            ⟨pod.uid, ⟨state, t.stampedGeneration pod, message⟩, none⟩
          pods :=
            match t.pods.get pod.key with
            | none => t.pods
            | some tracked =>
              t.pods.set pod.key (LifecycleStatus.apply ⟨state, t.stampedGeneration pod, message⟩
                tracked) },
        ⟨state, t.stampedGeneration pod, message⟩, true) := by
  unfold applyLifecycleLocked
  exact if_neg (by rw [h]; decide)

/-- The second result is the status offered and the third whether it was taken. -/
theorem applyLifecycleLocked_result (state : LifecycleState) (message : String) :
    (t.applyLifecycleLocked pod state message).2 =
      (⟨state, t.stampedGeneration pod, message⟩,
        !t.refusesLifecycle pod ⟨state, t.stampedGeneration pod, message⟩) := by
  cases h : t.refusesLifecycle pod ⟨state, t.stampedGeneration pod, message⟩ with
  | true => rw [applyLifecycleLocked_of_refused _ _ _ _ h]; rfl
  | false => rw [applyLifecycleLocked_of_accepted _ _ _ _ h]; rfl

theorem applyLifecycleLocked_vmsByName (state : LifecycleState) (message : String) :
    (t.applyLifecycleLocked pod state message).1.vmsByName = t.vmsByName := by
  cases h : t.refusesLifecycle pod ⟨state, t.stampedGeneration pod, message⟩ with
  | true => rw [applyLifecycleLocked_of_refused _ _ _ _ h]
  | false => rw [applyLifecycleLocked_of_accepted _ _ _ _ h]

theorem applyVMRuntime_vmsByName (vmid : VMID) (ip : String) :
    (t.applyVMRuntime pod vmid ip).1.vmsByName = t.vmsByName := by
  unfold applyVMRuntime mutatePod
  repeat' split
  all_goals rfl

theorem failCreate_vmsByName (absent : Bool) : (t.failCreate pod absent).vmsByName = t.vmsByName := by
  unfold failCreate
  dsimp only
  repeat' split
  all_goals rfl

theorem trackPodUnlessDeleting_vmsByName : (t.trackPodUnlessDeleting pod none).1.vmsByName = t.vmsByName := by
  unfold trackPodUnlessDeleting
  split
  · rfl
  · obtain ⟨l, hl⟩ := t.trackPodLocked_eq pod none
    rw [hl]

end Tables
end VkCocoon
