import VkCocoon.SetupTail
import VkCocoon.Startup

/-!
# Bring-up

`CreatePod`, `updatePod` with the wake and the lift of a failed hibernate, and the work
that a restarted provider resumes, for every guest but macOS ones. They bind VMs and start
the setup tails, next to the hibernates and the VM event watcher. Snapshot requests and
the annotations that only observers read are left out.
-/

namespace VkCocoon
open Lib Tables

/-- Where `bindRuntime` was called from: the adoption of `CreatePod`, its launch, a wake. -/
inductive BindSite where
  | adopt
  | launch (restoring : Bool)
  | wake
deriving DecidableEq, Repr

/-- `liftHibernateFailure` in `applyUpdate` or in `liftClearedHibernateFailure`. -/
inductive LiftSite where
  | update (prev : ℕ)
  | cleared
deriving DecidableEq, Repr

inductive BringPC where
  -- updatePod
  | backoff
  | look
  | wakeSourceCheck
  | detachOld (uid : UID) (v : Option VM)
  | trackUpdate (v : Option VM)
  | takeRetry (v : Option VM)
  | apply (v : Option VM) (prev : ℕ)
  | republish
  | retryLater (prev : ℕ)
  -- CreatePod
  | track
  | markCreating
  | index
  | adoptInspect (existing : VM) (attempt : ℕ)
  | dropIndex (existing : VM)
  | evidence
  | bringUp (restoring : Bool)
  | seed (v : VM) (restoring : Bool)
  | dispatch (v : VM) (restoring : Bool)
  | readyAtOnce
  | markBootDone (v : VM)
  | bootWait (v : VM)
  | fail (msg : String)
  | failCreate
  -- bindRuntime
  | bind (v : VM) (site : BindSite)
  | stamp (v : VM) (site : BindSite)
  | patch (v : VM) (site : BindSite)
  | detach (v : VM)
  -- dispatchOwedWork, owedOpFor, dispatchResume
  | resume
  | owed (v : VM)
  | claim (v : VM) (op : ResumeOp)
  | resumeStart (v : VM)
  | resumeFail (msg : String)
  | resumeRetry
  | classify (v : VM)
  | classifyFail (msg : String)
  | releaseResume
  -- wake
  | wakeCreating (prev : ℕ)
  | wakeClear (prev : ℕ)
  | wakeSource (prev : ℕ)
  | wakeClone (prev : ℕ)
  | wakeFail (msg : String) (prev : ℕ)
  | restore (v : VM)
  -- liftHibernateFailure
  | liftRead (site : LiftSite)
  | liftInspect (v : VM) (site : LiftSite)
  | lift (site : LiftSite)
  /-- `markReadyPublished`; `resumed` when the call holds the resume claim -/
  | markReady (resumed : Bool)
  | done
deriving DecidableEq, Repr

/-- One call. `launched` is what the runtime returns when it boots or clones for the call, `nic`
what it hot-adds when a hibernate started by the call rolls back. -/
structure Bring where
  pod : Pod
  launched : VM
  nic : NetworkConfig
  pc : BringPC
deriving DecidableEq, Repr

/-- `resolveVMIP` outside of a tail: a probe or a status refresh. -/
inductive ProbePC where
  | lookup
  | lease (seen : VM)
  | store (seen : VM) (ip : String)
  | done
deriving DecidableEq, Repr

inductive PodThread where
  | gone (t : WatchThread)
  | bring (b : Bring)
  | tail (t : Tail)
  | probe (key : Key) (pc : ProbePC)
deriving DecidableEq, Repr

/-- `goBackground` -/
def World.goBackground (w : World) (t : PodThread) : List PodThread := if w.closed then [] else [t]

/-- `seedLeaseIP` -/
def World.seedLeaseIP (w : World) (v : VM) (r : Reply) : VM :=
  if v.ip != "" || v.mac == "" || r.err.isSome then v
  else { v with ip := (w.leases.get v.mac).getD "" }

theorem World.seedLeaseIP_id (w : World) (v : VM) (r : Reply) : (w.seedLeaseIP v r).id = v.id := by
  unfold World.seedLeaseIP
  split <;> rfl

/-- `hibernateEvidence`, when it answers. -/
def World.hibernateEvidence (w : World) (name : String) : Bool :=
  if w.hasRegistry then w.hibernateTags.has name else w.localSnapshots.has name

/-- `hasWakeSource`, when it answers; the puller and the registry are configured together. -/
def World.hasWakeSource (w : World) (name : String) : Bool :=
  w.localSnapshots.has name || (w.hasRegistry && w.hibernateTags.has name)

/-- The VM of an unmanaged pod. -/
def unmanagedVM (pod : Pod) : VM := ⟨0, pod.vmid, pod.spec.vmName, "", .running, pod.ip, "", 0, []⟩

/-- The pod object as it stands: the tracked one when it is that object. -/
def Tables.podNow (t : Tables) (pod : Pod) : Pod :=
  match t.pods.get pod.key with
  | some tracked => if tracked.ref = pod.ref then tracked else pod
  | none => pod

/-- `Runtime.Run` or `Runtime.Clone`. -/
def World.launch (w : World) (v : VM) (r : Reply) : World × Option String :=
  (if r.lands then { w with runtime := w.runtime.set v.id v } else w, r.err)

/-- `deriveRestoreFromEvidence` on an explicit clone source. -/
def sourceConflict (name : String) : String :=
  "vm " ++ (name ++ (" has a hibernate snapshot but the pod requests an explicit clone source; " ++
    ("delete the " ++ (hibernateSnapshotTag ++ " tag to discard the hibernated state"))))

/-- Where `liftHibernateFailure` returns to when nothing was lifted. -/
def LiftSite.notLifted : LiftSite → BringPC
  | .update _ => .republish
  | .cleared => .done

def LiftSite.prev : LiftSite → ℕ
  | .update prev => prev
  | .cleared => 0

/-- Where `bindRuntime` returns to when the VM is bound. -/
def BindSite.bound (v : VM) : BindSite → BringPC
  | .adopt => .owed v
  | .launch restoring => .dispatch v restoring
  | .wake => .restore v

namespace Bring
variable (b : Bring)

def hibernate (v : VM) : PodThread := .gone (.hibernate ⟨b.pod, v, b.nic, false, .startHibernate⟩)

/-- `runPostCloneSetup` as a goroutine. -/
def postClone (v : VM) (wait : IPWait) (resumed : Bool) : PodThread :=
  let job : Job := ⟨b.pod, v, wait, resumed⟩
  .tail ⟨job, job.postClone⟩

/-- `runReadyWait` as a goroutine. -/
def readyWait (v : VM) (wait : IPWait) (resumed : Bool) : PodThread :=
  let job : Job := ⟨b.pod, v, wait, resumed⟩
  .tail ⟨job, job.readyWait⟩

/-- The goroutine of `dispatchHibernateRestore`. -/
def restored (v : VM) : PodThread :=
  if shouldDropNICBeforeHibernate b.pod.spec then .tail ⟨⟨b.pod, v, .wake, false⟩, .lookup⟩
  else b.postClone v .wake false

/-- The goroutine of `dispatchResume`. A snapshot only gives its claim back here. -/
def resumed (v : VM) : ResumeOp → PodThread
  | .hibernate => .bring { b with pc := .resumeStart v }
  | .snapshot => .bring { b with pc := .releaseResume }
  | .postClone => b.postClone v .clone true
  | .readyWait =>
    if b.pod.spec.managed then b.readyWait v (if isClonedBoot b.pod then .clone else .boot) true
    else .bring { b with pc := .markReady true }
  | .classifyNIC => .bring { b with pc := .classify v }

/-- The tails `CreatePod` starts before it publishes the status. -/
def dispatched (w : World) (v : VM) (restoring : Bool) : List PodThread :=
  if restoring then w.goBackground (b.restored v)
  else if isClonedBoot b.pod then w.goBackground (b.postClone v .clone false)
  else []

end Bring

namespace Bring

/-- One step of a call: the world, the next point, the goroutines started. -/
def step (w : World) (a : Answer) (b : Bring) : Option (World × BringPC × List PodThread) :=
  let pod := b.pod
  let t := w.tables
  match b.pc with
  | .backoff => some (w, if t.resumedOps.has pod.key then .done else .look, [])
  | .look =>
    let v := t.vmsByPod.get pod.key
    some (w,
      match t.pods.get pod.key with
      | none => if v.isNone && !pod.hibernate then .wakeSourceCheck else .trackUpdate v
      | some tracked => if tracked.uid != pod.uid then .detachOld tracked.uid v else .trackUpdate v, [])
  | .wakeSourceCheck =>
    some (w, if a.reply.err.isSome then .done
      else if w.hasWakeSource pod.spec.vmName then .trackUpdate none else .track, [])
  | .detachOld uid v =>
    match t.detachIncarnation pod.key uid v with
    | (t, detached) => some ({ w with tables := t }, if detached then .track else .done, [])
  | .trackUpdate v =>
    match t.trackPodUnlessDeleting pod none with
    | (t, tracked) => some ({ w with tables := t }, if tracked then .takeRetry v else .done, [])
  | .takeRetry v =>
    match t.takeOpRetry pod.key with
    | (t, prev) => some ({ w with tables := t }, .apply v prev, [])
  | .apply v prev =>
    if !pod.spec.managed then some (w, .republish, [])
    else
      match v with
      -- the error of a hibernate is put off to a retry by the surroundings
      | some v => if pod.hibernate then some (w, .done, [b.hibernate v])
        else some (w, .liftRead (.update prev), [])
      | none => some (w, if pod.hibernate then .republish
          else if pod.spec.vmName == "" then .done else .wakeCreating prev, [])
  | .republish => some (w.onTables fun t => (t.republishLifecycleOnGenerationBump pod).1, .done, [])
  | .retryLater prev => some (w.onTables (·.retryOpLater pod prev a.now), .done, [])
  | .track =>
    match t.trackPodUnlessDeleting pod none with
    | (t, tracked) => some ({ w with tables := t }, if tracked then .markCreating else .done, [])
  | .markCreating =>
    some (w.onTables fun t => (t.applyLifecycleLocked pod .creating "").1, .index, [])
  | .index =>
    some (w,
      match t.vmsByName.get pod.spec.vmName with
      | some existing => if isMacosVM existing then .evidence else .adoptInspect existing 0
      | none => .evidence, [])
  | .adoptInspect existing attempt =>
    some (w,
      match w.inspect existing.id a.reply with
      | .found _ => .bind existing .adopt
      | .notFound => .dropIndex existing
      | .inconclusive e =>
        if attempt + 1 < inlineInspectAttempts && !a.cut then .adoptInspect existing (attempt + 1)
        else .fail ("inspect vm " ++ (existing.id ++ (" indexed as " ++ (pod.spec.vmName ++
          (": " ++ e))))), [])
  | .dropIndex existing => some (w.onTables (·.dropStaleIndex pod.spec.vmName existing), .evidence, [])
  | .evidence =>
    some (w,
      if !pod.spec.managed then .bringUp pod.restoreFromHibernate
      else
        match a.reply.err with
        | some e => .fail e
        | none =>
          if !w.hibernateEvidence pod.spec.vmName then .bringUp pod.restoreFromHibernate
          else if !pod.restoreFromHibernate && pod.cloneSource then
            .fail (sourceConflict pod.spec.vmName)
          else .bringUp true, [])
  | .bringUp restoring =>
    if !pod.spec.managed then
      some (w, if pod.vmid == "" || pod.ip == "" then
          .fail ("unmanaged vm " ++ (pod.spec.vmName ++ " missing pre-assigned IP/VMID"))
        else .bind (unmanagedVM pod) (.launch restoring), [])
    else
      match w.launch b.launched a.reply with
      | (w, none) => some (w, .seed b.launched restoring, [])
      | (w, some e) => some (w, .fail e, [])
  | .seed v restoring => some (w, .bind (w.seedLeaseIP v a.reply) (.launch restoring), [])
  | .bind v site =>
    match t.trackPodIncarnation pod v with
    | (t, tracked) => some ({ w with tables := t }, if tracked then .stamp v site else .done, [])
  | .stamp v site =>
    match t.applyVMRuntime pod v.id v.ip with
    | (t, owned) => some ({ w with tables := t }, if owned then .patch v site else .detach v, [])
  | .patch v site => some (w, if a.reply = .nameTaken then .detach v else site.bound v, [])
  | .detach v =>
    some (w.onTables fun t => (t.detachIncarnation pod.key pod.uid (some v)).1, .done, [])
  | .dispatch v restoring =>
    some (w,
      if restoring then .done
      else if !pod.spec.managed then .readyAtOnce
      else if isClonedBoot pod then .done else .markBootDone v, b.dispatched w v restoring)
  | .readyAtOnce => some (w, if t.lifecycleAlreadyFailed pod then .done else .markReady false, [])
  | .markBootDone v => some (w.onTables (·.setPodAnnotationPostClone pod .done), .bootWait v, [])
  | .bootWait v => some (w, .done, w.goBackground (b.readyWait v .boot false))
  | .fail msg => some (w.onTables fun t => (t.applyLifecycleLocked pod .failed msg).1, .failCreate, [])
  | .failCreate => some (w.onTables (·.failCreate pod false), .done, [])
  | .resume =>
    match t.vmsByPod.get pod.key with
    | none => some (w, .done, [])
    | some v => some (w, ((owedOpFor (t.podNow pod) (some v)).map (.claim v)).getD .done, [])
  | .owed v =>
    some (w, ((owedOpFor (t.podNow pod) (some v)).map (.claim v)).getD (.markReady false), [])
  | .claim v op =>
    match t.claimResume pod.key with
    | (t, true) => some ({ w with tables := t }, .done, w.goBackground (b.resumed v op))
    | (t, false) => some ({ w with tables := t }, .done, [])
  | .resumeStart v =>
    match w.start v.id a.reply with
    -- the claim is given back by the surroundings once the hibernate has ended
    | (w, none) => some (w, .done, [b.hibernate v])
    | (w, some e) => some (w, .resumeFail (hibernateFailurePrefix ++ e), [])
  | .resumeFail msg =>
    some (w.onTables fun t => (t.applyLifecycleLocked pod .failed msg).1, .resumeRetry, [])
  | .resumeRetry => some (w.onTables (·.retryOpLater pod 0 a.now), .releaseResume, [])
  | .classify v =>
    match a.reply.err with
    | none => some (w, .done, [if w.hibernateEvidence pod.spec.vmName then b.readyWait v .wake true
        else b.postClone v .clone true])
    | some e => some (w, if !a.expired then .classify v
        else if w.closed && a.cut then .releaseResume else .classifyFail e, [])
  | .classifyFail msg =>
    some (w.onTables fun t => (t.applyLifecycleLocked pod .failed msg).1, .releaseResume, [])
  | .releaseResume => some (w.onTables (·.releaseResume pod.key), .done, [])
  | .wakeCreating prev =>
    some (w.onTables fun t => (t.applyLifecycleLocked pod .creating "").1, .wakeClear prev, [])
  | .wakeClear prev => some (w.onTables (·.clearRuntimeAnnotations pod), .wakeSource prev, [])
  | .wakeSource prev =>
    some (w, (a.reply.err.map fun e => .wakeFail e prev).getD (.wakeClone prev), [])
  | .wakeClone prev =>
    match w.launch b.launched a.reply with
    | (w, none) => some (w, .bind b.launched .wake, [])
    | (w, some e) => some (w, .wakeFail e prev, [])
  | .wakeFail msg prev =>
    some (w.onTables fun t => (t.applyLifecycleLocked pod .failed msg).1, .retryLater prev, [])
  | .restore v => some (w, .done, w.goBackground (b.restored v))
  | .liftRead site =>
    if pod.hibernate then some (w, .done, [])
    else
      match t.hibernateFailedVMLocked pod.key pod.uid with
      | none => some (w, site.notLifted, [])
      | some v => some (w, if isMacosVM v then .lift site else .liftInspect v site, [])
  | .liftInspect v site =>
    some (w,
      match w.inspect v.id a.reply with
      | .notFound => site.notLifted
      | .inconclusive _ => .retryLater site.prev
      | .found live => if live.state = .running then .lift site else site.notLifted, [])
  | .lift site =>
    match t.liftHibernateFailureLocked pod with
    | (t, lifted, _) =>
      some ({ w with tables := t }, if lifted then .markReady false else site.notLifted, [])
  | .markReady resumed =>
    some (w.onTables fun t => (t.applyLifecycleLocked pod .ready "").1,
      if resumed then .releaseResume else .done, [])
  | .done => none

/-- The critical section a step enters. -/
def op (a : Answer) (b : Bring) : Option TableOp :=
  match b.pc with
  | .detachOld uid v => some (.detachIncarnation b.pod.key uid v)
  | .trackUpdate _ | .track => some (.trackPodUnlessDeleting b.pod none)
  | .takeRetry _ => some (.takeOpRetry b.pod.key)
  | .republish => some (.republishLifecycleOnGenerationBump b.pod)
  | .retryLater prev => some (.retryOpLater b.pod prev a.now)
  | .markCreating | .wakeCreating _ => some (.setLifecycleState b.pod .creating "")
  | .dropIndex existing => some (.dropStaleIndex b.pod.spec.vmName existing)
  | .bind v _ => some (.trackPodIncarnation b.pod v)
  | .stamp v _ => some (.applyVMRuntime b.pod v.id v.ip)
  | .detach v => some (.detachIncarnation b.pod.key b.pod.uid (some v))
  | .markBootDone _ => some (.setPodAnnotationPostClone b.pod .done)
  | .fail msg | .resumeFail msg | .classifyFail msg | .wakeFail msg _ =>
    some (.setLifecycleState b.pod .failed msg)
  | .failCreate => some (.failCreate b.pod false)
  | .claim _ _ => some (.claimResume b.pod.key)
  | .resumeRetry => some (.retryOpLater b.pod 0 a.now)
  | .releaseResume => some (.releaseResume b.pod.key)
  | .wakeClear _ => some (.clearRuntimeAnnotations b.pod)
  | .lift _ => some (.liftHibernateFailure b.pod)
  | .markReady _ => some (.setLifecycleState b.pod .ready "")
  | _ => none

theorem launch_tables (w : World) (v : VM) (r : Reply) : (w.launch v r).1.tables = w.tables := by
  unfold World.launch
  dsimp only
  split <;> rfl

theorem step_tables {S : Type} [DecidableEq S] (snapshot : LifecycleStatus → S) {w w' : World}
    {a : Answer} {b : Bring} {pc' : BringPC} {new : List PodThread}
    (h : b.step w a = some (w', pc', new)) :
    w'.tables = w.tables.runOption snapshot (b.op a) := by
  unfold step at h
  unfold op
  cases hpc : b.pc with
  | apply v prev =>
    simp only [hpc] at h
    split at h
    · cases h
      rfl
    · split at h
      · split at h <;> cases h <;> rfl
      · cases h
        rfl
  | bringUp restoring =>
    simp only [hpc] at h
    have ht := launch_tables w b.launched a.reply
    split at h
    · cases h
      rfl
    · split at h <;> next heq => cases h; rw [heq] at ht; exact ht
  | wakeClone prev =>
    simp only [hpc] at h
    have ht := launch_tables w b.launched a.reply
    split at h <;> next heq => cases h; rw [heq] at ht; exact ht
  | resumeStart v =>
    simp only [hpc] at h
    have ht := w.start_tables v.id a.reply
    split at h <;> next heq => cases h; rw [heq] at ht; exact ht
  | claim v op =>
    simp only [hpc] at h
    split at h <;> next heq => cases h; simp only [runOption, TableOp.run, heq]
  | resume | classify =>
    simp only [hpc] at h
    split at h <;> cases h <;> rfl
  | liftRead site =>
    simp only [hpc] at h
    split at h
    · cases h
      rfl
    · split at h <;> cases h <;> rfl
  | done =>
    rw [hpc] at h
    cases h
  | _ =>
    rw [hpc] at h
    cases h
    rfl

/- The tails start at the top of their functions. -/
def Starts : PodThread → Prop
  | .tail t => t.pc = t.job.postClone ∨ t.pc = t.job.readyWait ∨ t.pc = .lookup
  | _ => True

theorem restored_starts (b : Bring) (v : VM) : Starts (b.restored v) := by
  unfold restored
  split
  · exact Or.inr (Or.inr rfl)
  · exact Or.inl rfl

theorem resumed_starts (b : Bring) (v : VM) (op : ResumeOp) : Starts (b.resumed v op) := by
  cases op with
  | postClone => exact Or.inl rfl
  | readyWait =>
    simp only [resumed]
    split
    · exact Or.inr (Or.inl rfl)
    · trivial
  | _ => trivial

theorem mem_goBackground {w : World} {t u : PodThread} (h : u ∈ w.goBackground t) :
    u = t ∧ w.goBackground t = [t] := by
  unfold World.goBackground at h ⊢
  split at h
  next => cases h
  next hc => exact ⟨List.mem_singleton.mp h, if_neg hc⟩

/-- The goroutines a call starts, and where it starts them. -/
inductive Fork (b : Bring) : PodThread → Prop where
  | hibernate {v : VM} {prev : ℕ} (hpc : b.pc = .apply (some v) prev)
      (hm : b.pod.spec.managed = true) : Fork b (b.hibernate v)
  | resumeStart {v : VM} (hpc : b.pc = .resumeStart v) : Fork b (b.hibernate v)
  | restoring {v : VM} (hpc : b.pc = .dispatch v true) : Fork b (b.restored v)
  | cloned {v : VM} {r : Bool} (hpc : b.pc = .dispatch v r) (hc : isClonedBoot b.pod = true) :
      Fork b (b.postClone v .clone false)
  | bootWait {v : VM} (hpc : b.pc = .bootWait v) : Fork b (b.readyWait v .boot false)
  | restore {v : VM} (hpc : b.pc = .restore v) : Fork b (b.restored v)
  | claim {v : VM} {op : ResumeOp} (hpc : b.pc = .claim v op) : Fork b (b.resumed v op)
  | woken {v : VM} (hpc : b.pc = .classify v) : Fork b (b.readyWait v .wake true)
  | fresh {v : VM} (hpc : b.pc = .classify v) : Fork b (b.postClone v .clone true)

/- A step starts one goroutine at most. -/
theorem step_fork {w w' : World} {a : Answer} {b : Bring} {pc' : BringPC} {new : List PodThread}
    {u : PodThread} (h : b.step w a = some (w', pc', new)) (hu : u ∈ new) :
    b.Fork u ∧ new = [u] := by
  have hback : ∀ x : PodThread, b.Fork x → u ∈ w.goBackground x →
      b.Fork u ∧ w.goBackground x = [u] := by
    intro x hx hu
    obtain ⟨rfl, hone⟩ := mem_goBackground hu
    exact ⟨hx, hone⟩
  have hone : ∀ x : PodThread, b.Fork x → u ∈ [x] → b.Fork u ∧ [x] = [u] := by
    intro x hx hu
    rw [List.mem_singleton.mp hu]
    exact ⟨hx, rfl⟩
  unfold step at h
  cases hpc : b.pc with
  | apply v prev =>
    simp only [hpc] at h
    split at h
    · cases h
      cases hu
    next hm =>
      split at h
      · split at h <;> cases h
        · exact hone _ (.hibernate hpc (by simpa using hm)) hu
        · cases hu
      · cases h
        cases hu
  | dispatch v restoring =>
    rw [hpc] at h
    cases h
    unfold dispatched at hu ⊢
    split at hu
    next hr =>
      rw [if_pos hr]
      exact hback _ (.restoring (by rw [hpc, hr])) hu
    next hr =>
      rw [if_neg hr]
      split at hu
      next hcl =>
        rw [if_pos hcl]
        exact hback _ (.cloned hpc hcl) hu
      next => cases hu
  | bootWait v =>
    rw [hpc] at h
    cases h
    exact hback _ (.bootWait hpc) hu
  | restore v =>
    rw [hpc] at h
    cases h
    exact hback _ (.restore hpc) hu
  | claim v op =>
    simp only [hpc] at h
    split at h <;> cases h
    · exact hback _ (.claim hpc) hu
    · cases hu
  | resumeStart v =>
    simp only [hpc] at h
    split at h <;> cases h
    · exact hone _ (.resumeStart hpc) hu
    · cases hu
  | classify v =>
    simp only [hpc] at h
    split at h <;> cases h
    · refine hone _ ?_ hu
      split
      · exact .woken hpc
      · exact .fresh hpc
    · cases hu
  | bringUp restoring =>
    simp only [hpc] at h
    split at h
    · cases h
      cases hu
    · split at h <;> cases h <;> cases hu
  | wakeClone prev | resume =>
    simp only [hpc] at h
    split at h <;> cases h <;> cases hu
  | liftRead site =>
    simp only [hpc] at h
    split at h
    · cases h
      cases hu
    · split at h <;> cases h <;> cases hu
  | done =>
    rw [hpc] at h
    cases h
  | _ =>
    rw [hpc] at h
    cases h
    cases hu

theorem Fork.starts {b : Bring} {u : PodThread} (h : b.Fork u) : Starts u := by
  cases h with
  | hibernate | resumeStart => trivial
  | restoring | restore => exact restored_starts b _
  | cloned | fresh => exact Or.inl rfl
  | bootWait | woken => exact Or.inr (Or.inl rfl)
  | claim => exact resumed_starts b _ _

theorem step_new {w w' : World} {a : Answer} {b : Bring} {pc' : BringPC} {new : List PodThread}
    {u : PodThread} (h : b.step w a = some (w', pc', new)) (hu : u ∈ new) :
    Starts u ∧ new = [u] :=
  ⟨(step_fork h hu).1.starts, (step_fork h hu).2⟩

end Bring

/-! ### The pool -/

/-- A probe or a status refresh. -/
def ProbePC.step (w : World) (a : Answer) (key : Key) : ProbePC → Option (World × ProbePC)
  | .lookup => some (w, ((w.tables.vmsByPod.get key).map .lease).getD .done)
  | .lease seen =>
    match w.resolveVMIP seen a.reply with
    | (ip, true) => some (w, .store seen ip)
    | (_, false) => some (w, .done)
  | .store seen ip =>
    some (w.onTables fun t => (t.updateTrackedVM key seen.id (.ip ip)).1, .done)
  | .done => none

def ProbePC.op (key : Key) : ProbePC → Option TableOp
  | .store seen ip => some (.updateTrackedVM key seen.id (.ip ip))
  | _ => none

/-- The critical section a step of the watcher or of a hibernate enters. -/
def WatchThread.op (w : World) (a : Answer) : WatchThread → Option TableOp
  | .hibernate h =>
    if h.pc = .schedule then
      if w.closed || w.tables.pendingRecheck.has h.v.id then none
      else some (.addPendingRecheck h.v.id)
    else h.op
  | .watch g => Watch.op w g.role a g.pc

namespace PodThread

def step (w : World) (a : Answer) : PodThread → Option (World × PodThread × List PodThread)
  | .gone t => (t.step w a).map fun r => (r.1, .gone r.2.1, r.2.2.map .gone)
  | .bring b => (b.step w a).map fun r => (r.1, .bring { b with pc := r.2.1 }, r.2.2)
  | .tail t => (t.job.step w a t.pc).map fun r => (r.1, .tail { t with pc := r.2 }, [])
  | .probe key pc => (pc.step w a key).map fun r => (r.1, .probe key r.2, [])

def op (w : World) (a : Answer) : PodThread → Option TableOp
  | .gone t => t.op w a
  | .bring b => b.op a
  | .tail t => t.job.op t.pc
  | .probe key pc => pc.op key

/-- Where calls enter: an event, a hibernate, `UpdatePod`, `CreatePod`, and at startup the lift of
a failed hibernate and `dispatchOwedWork`. The tails are started by the code itself. -/
def entry : PodThread → Bool
  | .gone t => t.entry
  | .bring b => !isMacosSpec b.pod.spec &&
    (b.pc == .backoff || b.pc == .track || b.pc == .liftRead .cleared || b.pc == .resume)
  | .tail _ => false
  | .probe _ pc => pc == .lookup

end PodThread

/-- What happens around the threads; the leases change by themselves. -/
inductive PodAround where
  | around (o : Around)
  | lease (mac : String) (ip : Option String)
deriving DecidableEq, Repr

def PodAround.op : PodAround → Option TableOp
  | .around (.table op) => some op
  | _ => none

/-- A managed pod whose ready promises an address: every guest but a macOS one. -/
def Pod.promises (pod : Pod) : Bool := pod.spec.managed && !isMacosSpec pod.spec

/-- The pod of a section that writes ready. -/
def TableOp.readyPod : TableOp → Option Pod
  | .setLifecycleState pod .ready _ | .setLifecycleStateForWake pod _ .ready _ => some pod
  | _ => none

/-- Ready is written for these pods by the threads of the pool alone. -/
def PodAround.allowed : PodAround → Bool
  | .around (.table op) => !op.isGoneFlag && op.readyPod.all (!·.promises)
  | _ => true

section Pool
variable {S : Type} [DecidableEq S] (snapshot : LifecycleStatus → S)

def World.podAround (w : World) : PodAround → World
  | .around o => w.around snapshot o
  | .lease mac none => { w with leases := w.leases.del mac }
  | .lease mac (some ip) => { w with leases := w.leases.set mac ip }

def podThreads : Program World PodThread Answer PodAround where
  entry _ t := t.entry
  step w _ t a := t.step w a
  env w o := if o.allowed then some (w.podAround snapshot o) else none

theorem World.podAround_tables (w : World) (o : PodAround) :
    (w.podAround snapshot o).tables = w.tables.runOption snapshot o.op := by
  cases o with
  | around o =>
    cases o with
    | runtime id v => cases v <;> rfl
    | apiPod key uid => cases uid <;> rfl
    | _ => rfl
  | lease mac ip => cases ip <;> rfl

theorem WatchThread.step_tables {w w' : World} {a : Answer} {t t' : WatchThread}
    {new : List WatchThread} (h : t.step w a = some (w', t', new)) :
    w'.tables = w.tables.runOption snapshot (t.op w a) := by
  cases t with
  | hibernate hib =>
    simp only [WatchThread.step, World.scheduleDeferredRecheck] at h
    simp only [WatchThread.op]
    split at h
    next hpc =>
      rw [if_pos hpc]
      split at h <;> next hc =>
        cases h
        simp only [hc]
        rfl
    next hpc =>
      rw [if_neg hpc]
      obtain ⟨s, hs, heq⟩ := Option.map_eq_some_iff.mp h
      cases heq
      exact Hib.step_tables snapshot hs
  | watch g =>
    obtain ⟨s, hs, heq⟩ := Option.map_eq_some_iff.mp h
    cases heq
    exact Watch.step_tables snapshot hs

theorem PodThread.step_tables {w w' : World} {a : Answer} {t t' : PodThread}
    {new : List PodThread} (h : t.step w a = some (w', t', new)) :
    w'.tables = w.tables.runOption snapshot (t.op w a) := by
  cases t with
  | gone t =>
    obtain ⟨r, hr, heq⟩ := Option.map_eq_some_iff.mp h
    cases heq
    exact WatchThread.step_tables snapshot hr
  | bring b =>
    obtain ⟨r, hr, heq⟩ := Option.map_eq_some_iff.mp h
    cases heq
    exact Bring.step_tables snapshot hr
  | tail t =>
    obtain ⟨r, hr, heq⟩ := Option.map_eq_some_iff.mp h
    cases heq
    exact t.job.step_tables snapshot hr
  | probe key pc =>
    obtain ⟨r, hr, heq⟩ := Option.map_eq_some_iff.mp h
    cases heq
    cases pc with
    | lease seen =>
      simp only [ProbePC.step] at hr
      split at hr <;> cases hr <;> rfl
    | done => cases hr
    | _ =>
      cases hr
      rfl

end Pool
end VkCocoon
