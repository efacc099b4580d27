import VkCocoon.Bringup
import VkCocoon.Fence

/-!
# The node

`DeletePod`, the snapshot requests of `updatePod` and the fork snapshots of `bringUpVM`, and with
them the pool of everything that runs on a node after startup: the watcher and its rechecks,
creates, updates, wakes, hibernates, resumed work, setup tails, probes and deletes. A teardown
holds the fence of its key from its claim to its `finishDeleting`, and the pool keeps the holders
apart.
-/

namespace VkCocoon
open Lib Tables

/-- `Runtime.SnapshotRemoveIfExists` -/
def World.snapshotRemove (w : World) (name : String) (r : Reply) : World :=
  if r.lands then { w with localSnapshots := w.localSnapshots.del name } else w

/-! ### DeletePod -/

inductive DeletePC where
  | claim
  | backoff
  | look
  -- saveAndPushSnapshot
  | inspect (v : VM)
  | save (v : VM)
  | push (v : VM)
  -- removeVM
  | remove (v : VM)
  | releaseLeases (v : VM)
  -- removeLocalSnapshots
  | dropSnapshot (name : String)
  | dropFork (name : String)
  | forget
  /-- the deferred `finishDeleting` -/
  | finish
  | done
deriving DecidableEq, Repr

/-- One call, for every guest but macOS ones. -/
structure Delete where
  pod : Pod
  /-- `meta.ReadKeepSnapshotOnDelete` -/
  keepSnapshots : Bool
  /-- `meta.ShouldSnapshotVM` -/
  shouldSnapshot : Bool
  pc : DeletePC
deriving DecidableEq, Repr

namespace Delete
variable (d : Delete)

/-- What follows once the VM is gone. -/
def cleanup (name : String) : DeletePC :=
  if d.keepSnapshots || name == "" then .forget else .dropSnapshot name

def step (w : World) (a : Answer) : Option (World × DeletePC) :=
  let key := d.pod.key
  match d.pc with
  | .claim =>
    match w.tables.claimDeleting key d.pod.uid with
    | (t, .claimed) => some ({ w with tables := t }, .backoff)
    | (t, _) => some ({ w with tables := t }, .done)
  | .backoff => some (w, if w.tables.resumedOps.has key then .finish else .look)
  | .look =>
    some (w,
      if !d.pod.spec.managed then .forget
      else
        match w.tables.vmsByPod.get key with
        | none => d.cleanup d.pod.spec.vmName
        | some v => if d.shouldSnapshot && w.hasPusher && v.name != "" then .inspect v else .remove v)
  | .inspect v =>
    some (w,
      match w.inspect v.id a.reply with
      | .notFound => .remove v
      | .inconclusive _ => .finish
      | .found current => if current.state = .running then .save v else .remove v)
  | .save v =>
    match w.snapshotSave v.name v.id a.reply with
    | (w, none) => some (w, .push v)
    | (w, some _) => some (w, .finish)
  -- the push goes to the default tag, which no wake reads
  | .push v => some (w, if a.reply.err.isSome then .finish else .remove v)
  | .remove v =>
    match w.remove v.id a.reply with
    | (w, none) => some (w, .releaseLeases v)
    | (w, some _) => some (w, .finish)
  | .releaseLeases v => some (w.releaseDHCPLeases v, d.cleanup v.name)
  | .dropSnapshot name => some (w.snapshotRemove name a.reply, .dropFork name)
  | .dropFork name => some (w.snapshotRemove (forkSnapshotName name) a.reply, .forget)
  | .forget => some (w.onTables (·.forgetPod key), .finish)
  | .finish => some (w.onTables (·.finishDeleting key), .done)
  | .done => none

/-- The critical section a step enters. -/
def op : Option TableOp :=
  match d.pc with
  | .claim => some (.claimDeleting d.pod.key d.pod.uid)
  | .forget => some (.forgetPod d.pod.key)
  | .finish => some (.finishDeleting d.pod.key)
  | _ => none

theorem snapshotRemove_tables (w : World) (name : String) (r : Reply) :
    (w.snapshotRemove name r).tables = w.tables := by
  unfold World.snapshotRemove
  split <;> rfl

theorem step_tables {S : Type} [DecidableEq S] (snapshot : LifecycleStatus → S) {w w' : World}
    {a : Answer} {pc' : DeletePC} (h : d.step w a = some (w', pc')) :
    w'.tables = w.tables.runOption snapshot d.op := by
  unfold step at h
  unfold op
  cases hpc : d.pc with
  | claim =>
    simp only [hpc] at h
    split at h <;> next heq => cases h; simp only [runOption, TableOp.run, heq]
  | save v =>
    simp only [hpc] at h
    have ht := w.snapshotSave_tables v.id v.name a.reply
    split at h <;> next heq => cases h; rw [heq] at ht; exact ht
  | remove v =>
    simp only [hpc] at h
    have ht := w.remove_tables v.id a.reply
    split at h <;> next heq => cases h; rw [heq] at ht; exact ht
  | dropSnapshot name | dropFork name =>
    rw [hpc] at h
    cases h
    exact snapshotRemove_tables _ _ _
  | done =>
    rw [hpc] at h
    cases h
  | _ =>
    rw [hpc] at h
    cases h
    rfl

end Delete

/-! ### Snapshot requests -/

/-- `snapshot` is called by `applyUpdate` or by a resumed goroutine. -/
inductive SnapshotSite where
  | update (prev : ℕ)
  | resumed
deriving DecidableEq, Repr

/-- Where the caller goes on, and where when `snapshot` returned an error. -/
def SnapshotSite.ret : SnapshotSite → Bool → BringPC
  | .update prev, true => .liftRead (.update prev)
  | .update prev, false => .retryLater prev
  | .resumed, true => .releaseResume
  | .resumed, false => .resumeRetry

inductive SnapshotPC where
  | begin
  | save
  | push
  | cleanup
  | answer
deriving DecidableEq, Repr

structure SnapshotCall where
  caller : Bring
  v : VM
  site : SnapshotSite
  pc : SnapshotPC
deriving DecidableEq, Repr

/-- The function `ensureForkSnapshot` gives to its singleflight group. -/
inductive ForkPC where
  | check
  | lookup
  | inspect
  | save (id : VMID)
  | done
deriving DecidableEq, Repr

/-- One flight. The creates that wait for it go on with their launch whatever it returns. -/
structure ForkFlight where
  source : String
  pc : ForkPC
deriving DecidableEq, Repr

inductive NodeThread where
  | pod (t : PodThread)
  | snapshot (s : SnapshotCall)
  | fork (f : ForkFlight)
  | delete (d : Delete)
deriving DecidableEq, Repr

namespace SnapshotCall
variable (s : SnapshotCall)

def localName : String := "snap-" ++ s.v.name

def go (pc : SnapshotPC) : NodeThread := .snapshot { s with pc := pc }

def ret (b : Bool) : NodeThread := .pod (.bring { s.caller with pc := s.site.ret b })

def step (w : World) (a : Answer) : World × NodeThread :=
  match s.pc with
  | .begin => (w, if lifecycleCreating (w.tables.podNow s.caller.pod) then s.ret false else s.go .save)
  | .save =>
    match w.snapshotSave s.localName s.v.id a.reply with
    | (w, none) => (w, s.go .push)
    | (w, some _) => (w, s.go .cleanup)
  | .push => (w, s.go .cleanup)
  | .cleanup => (w.snapshotRemove s.localName a.reply, s.go .answer)
  -- the outcome is an annotation; only a patch that failed is put off
  | .answer => (w, s.ret (a.reply.err.isNone || a.reply == .nameTaken))

theorem step_tables (w : World) (a : Answer) : (s.step w a).1.tables = w.tables := by
  unfold step
  split
  · rfl
  · have ht := w.snapshotSave_tables s.v.id s.localName a.reply
    split <;> next heq => rw [heq] at ht; exact ht
  · rfl
  · exact Delete.snapshotRemove_tables _ _ _
  · rfl

end SnapshotCall

/-- `Runtime.Inspect` by name: some VM of that name. -/
def World.inspectName (w : World) (name : String) (pick : ℕ) : Option VMID :=
  ((w.runtime.toList.filter fun kv => kv.2.name == name)[pick]?).map (·.1)

namespace ForkFlight
variable (f : ForkFlight)

def step (w : World) (a : Answer) : Option (World × ForkPC) :=
  match f.pc with
  | .check =>
    some (w, if w.localSnapshots.has (forkSnapshotName f.source) && a.reply.err.isNone then .done
      else .lookup)
  | .lookup =>
    some (w, ((w.tables.vmsByName.get f.source).map fun v => .save v.id).getD .inspect)
  | .inspect =>
    some (w, if a.reply.err.isSome then .done
      else ((w.inspectName f.source a.pick).map .save).getD .done)
  | .save id => some ((w.snapshotSave (forkSnapshotName f.source) id a.reply).1, .done)
  | .done => none

theorem step_tables {w w' : World} {a : Answer} {pc' : ForkPC} (h : f.step w a = some (w', pc')) :
    w'.tables = w.tables := by
  unfold step at h
  cases hpc : f.pc with
  | save id =>
    rw [hpc] at h
    cases h
    exact w.snapshotSave_tables id _ a.reply
  | done =>
    rw [hpc] at h
    cases h
  | _ =>
    rw [hpc] at h
    cases h
    rfl

end ForkFlight

namespace Bring

/-- The request that `applyUpdate` answers before anything else. -/
def requests (w : World) (b : Bring) : Option SnapshotCall :=
  match b.pc with
  | .apply (some v) prev =>
    if b.pod.spec.managed && b.pod.pendingSnapshotRef != "" && !b.pod.hibernate && w.hasPusher then
      some ⟨b, v, .update prev, .begin⟩
    else none
  | _ => none

/-- The goroutine of a call; a resumed snapshot is one of its own. -/
def forked (w : World) (b : Bring) (t : PodThread) : NodeThread :=
  match b.pc with
  | .claim v .snapshot => if w.hasPusher then .snapshot ⟨b, v, .resumed, .begin⟩ else .pod t
  | _ => .pod t

end Bring

/-! ### The pool -/

namespace NodeThread

def step (w : World) (a : Answer) : NodeThread → Option (World × NodeThread × List NodeThread)
  | .pod (.bring b) =>
    match b.requests w with
    | some s => some (w, .snapshot s, [])
    | none =>
      (b.step w a).map fun r => (r.1, .pod (.bring { b with pc := r.2.1 }), r.2.2.map (b.forked w))
  | .pod t => (t.step w a).map fun r => (r.1, .pod r.2.1, r.2.2.map .pod)
  | .snapshot s => some ((s.step w a).1, (s.step w a).2, [])
  | .fork f => (f.step w a).map fun r => (r.1, .fork { f with pc := r.2 }, [])
  | .delete d => (d.step w a).map fun r => (r.1, .delete { d with pc := r.2 }, [])

/-- The critical section a step enters. -/
def op (w : World) (a : Answer) : NodeThread → Option TableOp
  | .pod (.bring b) => if (b.requests w).isSome then none else b.op a
  | .pod t => t.op w a
  | .snapshot _ | .fork _ => none
  | .delete d => d.op

/-- Where calls enter. A hibernate is started by an update or as resumed work. -/
def entry : NodeThread → Bool
  | .pod (.gone (.hibernate _)) => false
  | .pod t => t.entry
  | .snapshot _ => false
  | .fork f => f.pc == .check
  | .delete d => !isMacosSpec d.pod.spec && d.pc == .claim

end NodeThread

/-- The sections that other goroutines may enter: the fence belongs to the threads of the pool, and
tracking without a look at it to startup. -/
def PodAround.ambient (o : PodAround) : Bool := o.op.all Fence.ambient

abbrev NodeEvent := PoolEvent NodeThread Answer PodAround

section Pool
variable {S : Type} [DecidableEq S] (snapshot : LifecycleStatus → S)

def nodeThreads : Program World NodeThread Answer PodAround where
  entry _ t := t.entry
  step w _ t a := t.step w a
  env w o := if o.ambient then some (w.podAround snapshot o) else none

theorem NodeThread.step_tables {w w' : World} {a : Answer} {t t' : NodeThread}
    {new : List NodeThread} (h : t.step w a = some (w', t', new)) :
    w'.tables = w.tables.runOption snapshot (t.op w a) := by
  cases t with
  | pod t =>
    cases t with
    | bring b =>
      simp only [NodeThread.step] at h
      simp only [NodeThread.op]
      split at h
      next s hs =>
        cases h
        rw [hs]
        rfl
      next hs =>
        rw [hs]
        obtain ⟨r, hr, heq⟩ := Option.map_eq_some_iff.mp h
        cases heq
        exact Bring.step_tables snapshot hr
    | gone t | tail t | probe key pc =>
      obtain ⟨r, hr, heq⟩ := Option.map_eq_some_iff.mp h
      cases heq
      exact PodThread.step_tables snapshot hr
  | snapshot s =>
    cases h
    exact s.step_tables w a
  | fork f =>
    obtain ⟨r, hr, heq⟩ := Option.map_eq_some_iff.mp h
    cases heq
    exact f.step_tables hr
  | delete d =>
    obtain ⟨r, hr, heq⟩ := Option.map_eq_some_iff.mp h
    cases heq
    exact d.step_tables snapshot hr

end Pool

/-! ### The fence and its holders -/

/-- The key whose fence an eviction holds. -/
def GonePC.holds : GonePC → Option Key
  | .remove m _ | .releaseLeases m _ _ | .deletePod m _ _ _ | .untrack m _ _ | .finish m _ _ _ =>
    some m.key
  | .check m _ .removed | .schedule m _ .removed => some m.key
  | _ => none

def Delete.holds (d : Delete) : Option Key :=
  match d.pc with
  | .claim | .done => none
  | _ => some d.pod.key

def NodeThread.holds : NodeThread → Option Key
  | .pod (.gone (.watch g)) => g.pc.holds
  | .pod _ | .snapshot _ | .fork _ => none
  | .delete d => d.holds

/-- The fence of `k` is up. -/
def World.fenced (w : World) (k : Key) : Prop := w.tables.deleting.has k = true

section Fence
variable {w w' : World} {a : Answer}

theorem fenced_of_claimed {t : Tables} {key : Key} (h : t = { w.tables with
    deleting := w.tables.deleting.set key () }) (ht : w'.tables = t) (k : Key)
    (hk : k = key ∨ w.fenced k) : w'.fenced k := by
  unfold World.fenced at hk ⊢
  rw [ht, h]
  show (w.tables.deleting.set key ()).has k = true
  rw [GoMap.has_set]
  rcases hk with rfl | hk
  · simp
  · simp [hk]

theorem fenced_of_finish {key : Key} (ht : w'.tables = w.tables.finishDeleting key) (k : Key)
    (hne : k ≠ key) (hk : w.fenced k) : w'.fenced k := by
  unfold World.fenced at hk ⊢
  rw [ht]
  show (w.tables.deleting.del key).has k = true
  rw [GoMap.has_del, hk]
  simp [hne]

theorem fenced_of_deleting (ht : w'.tables.deleting = w.tables.deleting) (k : Key)
    (hk : w.fenced k) : w'.fenced k := by
  unfold World.fenced at hk ⊢
  rw [ht]
  exact hk

theorem Role.ret_holds (role : Role) (b : Bool) : (role.ret b).holds = none := by
  cases role <;> cases b <;> rfl

/- A step that enters no section of the fence leaves every fence as it was. -/
theorem fenced_of_op {o : Option TableOp} (ht : w'.tables = w.tables.runOption id o)
    (ho : o.all (!·.isFence) = true) (k : Key) (hk : w.fenced k) : w'.fenced k := by
  refine fenced_of_deleting ?_ k hk
  rw [ht]
  cases o with
  | none => rfl
  | some op => exact run_deleting id w.tables op (by simpa using ho)

theorem GonePC.ite_holds {c : Prop} [Decidable c] {p q : GonePC} {own : Option Key}
    (hp : p.holds = own) (hq : q.holds = own) : (if c then p else q).holds = own := by
  split
  · exact hp
  · exact hq

theorem Evict.evicted_holds (site : Evict) (m : Match) (v : VM) :
    (site.evicted m v).holds = some m.key := by
  cases site <;> rfl

theorem Watch.step_lock {role : Role} {pc pc' : GonePC} {new : List Watch}
    (h : Watch.step w role a pc = some (w', pc', new)) :
    Program.LockMove w.fenced w'.fenced pc.holds pc'.holds := by
  have ht := Watch.step_tables id h
  have hkeep : (Watch.op w role a pc).all (!·.isFence) = true → pc'.holds = pc.holds →
      Program.LockMove w.fenced w'.fenced pc.holds pc'.holds := by
    intro ho hh
    exact .keep hh (fenced_of_op ht ho)
  cases pc with
  | lookup id name =>
    obtain ⟨m, -, hm⟩ := Option.map_eq_some_iff.mp h
    refine hkeep rfl ?_
    cases m with
    | none =>
      cases hm
      exact role.ret_holds false
    | some m =>
      cases hm
      exact GonePC.ite_holds rfl (role.ret_holds false)
  | flags m =>
    cases h
    exact hkeep rfl (GonePC.ite_holds (role.ret_holds false) rfl)
  | inspect m attempt =>
    refine hkeep rfl ?_
    simp only [Watch.step] at h
    split at h <;> cases h
    · rfl
    · exact GonePC.ite_holds rfl rfl
    · exact GonePC.ite_holds (role.ret_holds false) rfl
  | cooldown m inspected =>
    cases h
    exact hkeep rfl (GonePC.ite_holds rfl rfl)
  | start m inspected =>
    refine hkeep rfl ?_
    simp only [Watch.step] at h
    split at h <;> cases h <;> rfl
  | reinspect m =>
    refine hkeep rfl ?_
    simp only [Watch.step] at h
    split at h <;> cases h <;> rfl
  | refresh m fresh =>
    cases h
    exact hkeep rfl rfl
  | liftRead m =>
    refine hkeep rfl ?_
    simp only [Watch.step] at h
    split at h
    · cases h
      exact role.ret_holds false
    · split at h <;> cases h
      · exact role.ret_holds false
      · exact GonePC.ite_holds rfl rfl
  | liftInspect m v =>
    refine hkeep rfl ?_
    simp only [Watch.step] at h
    split at h <;> cases h
    · exact role.ret_holds false
    · rfl
    · exact GonePC.ite_holds rfl (role.ret_holds false)
  | retryLater m | markReady m =>
    cases h
    exact hkeep rfl (role.ret_holds false)
  | lift m =>
    cases h
    exact hkeep rfl (GonePC.ite_holds rfl (role.ret_holds false))
  | claim m v site =>
    simp only [Watch.step] at h
    split at h
    next t hc =>
      cases h
      obtain ⟨hfree, hset⟩ := Fence.claimDeletingIncarnation_claimed hc
      refine .take m.key rfl ?_ ?_ (fenced_of_claimed hset rfl)
      · split <;> rfl
      · unfold World.fenced
        rw [← deletingLocked, hfree]
        decide
    next t hc =>
      cases h
      rw [Fence.claimDeletingIncarnation_refused hc]
      refine .keep ?_ fun k hk => hk
      split
      · exact role.ret_holds false
      next hs => cases site <;> first | rfl | exact absurd rfl hs
  | remove m v =>
    refine hkeep rfl ?_
    simp only [Watch.step] at h
    split at h <;> cases h <;> rfl
  | releaseLeases m v site =>
    cases h
    exact hkeep rfl rfl
  | deletePod m v site attempt =>
    refine hkeep rfl ?_
    simp only [Watch.step] at h
    split at h <;> cases h
    · exact GonePC.ite_holds rfl (site.evicted_holds m v)
    · rfl
  | untrack m v site =>
    cases h
    exact hkeep rfl (site.evicted_holds m v)
  | finish m v site result =>
    cases h
    refine .give m.key rfl ?_ fun k hne hk => fenced_of_finish rfl k hne hk
    split
    · exact role.ret_holds result
    next hs => cases site <;> first | rfl | exact absurd rfl hs
  | check m v site =>
    cases h
    refine hkeep rfl ?_
    cases site with
    | gone => exact GonePC.ite_holds rfl (role.ret_holds false)
    | recheck => exact role.ret_holds _
    | removed => exact GonePC.ite_holds rfl rfl
  | schedule m v site =>
    have ho : (Watch.op w role a (.schedule m v site)).all (!·.isFence) = true := by
      simp only [Watch.op]
      split <;> rfl
    refine hkeep ho ?_
    simp only [Watch.step] at h
    cases h
    cases site with
    | removed => rfl
    | gone => exact role.ret_holds true
    | recheck => exact role.ret_holds true
  | sleep =>
    cases role with
    | event => cases h
    | recheck vmID =>
      cases h
      exact hkeep rfl (GonePC.ite_holds rfl rfl)
  | look =>
    cases role with
    | event => cases h
    | recheck vmID =>
      obtain ⟨m, -, hm⟩ := Option.map_eq_some_iff.mp h
      refine hkeep rfl ?_
      cases m <;> cases hm <;> rfl
  | recheckInspect m =>
    cases role with
    | event => cases h
    | recheck vmID =>
      refine hkeep rfl ?_
      simp only [Watch.step] at h
      split at h <;> cases h
      · rfl
      · exact GonePC.ite_holds rfl rfl
      · exact GonePC.ite_holds rfl rfl
  | leave =>
    cases role with
    | event => cases h
    | recheck vmID =>
      cases h
      exact hkeep rfl rfl
  | done => cases h

theorem Delete.cleanup_holds (d : Delete) (name : String) :
    ({ d with pc := d.cleanup name } : Delete).holds = some d.pod.key := by
  unfold Delete.cleanup
  split <;> rfl

theorem Delete.step_lock {d : Delete} {pc' : DeletePC} (h : d.step w a = some (w', pc')) :
    Program.LockMove w.fenced w'.fenced d.holds ({ d with pc := pc' } : Delete).holds := by
  have ht := d.step_tables id h
  have hkeep : d.op.all (!·.isFence) = true →
      ({ d with pc := pc' } : Delete).holds = d.holds →
      Program.LockMove w.fenced w'.fenced d.holds ({ d with pc := pc' } : Delete).holds := by
    intro ho hh
    exact .keep hh (fenced_of_op ht ho)
  obtain ⟨pod, keepSnapshots, shouldSnapshot, pc⟩ := d
  cases pc with
  | claim =>
    simp only [Delete.step] at h
    split at h
    next t hc =>
      cases h
      obtain ⟨hfree, hset⟩ := Fence.claimDeleting_claimed hc
      refine .take pod.key rfl rfl ?_ (fenced_of_claimed hset rfl)
      unfold World.fenced
      rw [← deletingLocked, hfree]
      decide
    next t r hne hc =>
      cases h
      rw [Fence.claimDeleting_refused hc hne]
      exact .keep rfl fun k hk => hk
  | backoff =>
    cases h
    refine hkeep rfl ?_
    split <;> rfl
  | look =>
    cases h
    refine hkeep rfl ?_
    split
    · rfl
    · split
      · exact Delete.cleanup_holds _ _
      · split <;> rfl
  | inspect v =>
    cases h
    refine hkeep rfl ?_
    split
    · rfl
    · rfl
    · split <;> rfl
  | save v | remove v =>
    refine hkeep rfl ?_
    simp only [Delete.step] at h
    split at h <;> cases h <;> rfl
  | push v =>
    cases h
    refine hkeep rfl ?_
    split <;> rfl
  | releaseLeases v =>
    cases h
    exact hkeep rfl (Delete.cleanup_holds _ _)
  | dropSnapshot name | dropFork name | forget =>
    cases h
    exact hkeep rfl rfl
  | finish =>
    cases h
    exact .give pod.key rfl rfl fun k hne hk => fenced_of_finish rfl k hne hk
  | done => cases h

/- The sections of the other threads are none of the fence's. -/
theorem Bring.op_ambient (b : Bring) : (b.op a).all Fence.ambient = true := by
  unfold Bring.op
  cases b.pc <;> rfl

theorem WatchThread.hibernate_op_ambient (h : Hib) :
    (WatchThread.op w a (.hibernate h)).all Fence.ambient = true := by
  simp only [WatchThread.op]
  split
  · split <;> rfl
  · unfold Hib.op
    cases h.pc <;> rfl

theorem Job.op_ambient (job : Job) (pc : TailPC) : (job.op pc).all Fence.ambient = true := by
  cases pc with
  | leave =>
    simp only [Job.op]
    split <;> rfl
  | _ => rfl

theorem ProbePC.op_ambient (pc : ProbePC) (key : Key) : (pc.op key).all Fence.ambient = true := by
  cases pc <;> rfl

theorem not_fence_of_ambient {o : Option TableOp} (h : o.all Fence.ambient = true) :
    o.all (!·.isFence) = true := by
  cases o with
  | none => rfl
  | some op =>
    rw [Option.all_some] at h ⊢
    rw [Fence.ambient_not_fence h]
    rfl

/-- A thread that a step of another may start: of the watcher only a recheck that begins. -/
def NodeThread.Begins : NodeThread → Prop
  | .pod (.gone (.watch g)) => ∃ vmID, g = ⟨.recheck vmID, .sleep⟩
  | .delete _ => False
  | _ => True

theorem NodeThread.Begins.holds {t : NodeThread} (h : t.Begins) : t.holds = none := by
  cases t with
  | pod t =>
    cases t with
    | gone t =>
      cases t with
      | hibernate hib => rfl
      | watch g =>
        obtain ⟨vmID, rfl⟩ := h
        rfl
    | _ => rfl
  | snapshot s => rfl
  | fork f => rfl
  | delete d => cases h

theorem Bring.Fork.begins {b : Bring} {u : PodThread} (h : b.Fork u) : (NodeThread.pod u).Begins := by
  cases h with
  | hibernate | resumeStart | cloned | fresh | bootWait | woken => trivial
  | restoring | restore =>
    unfold Bring.restored
    split <;> trivial
  | @claim v op =>
    cases op with
    | readyWait =>
      simp only [Bring.resumed]
      split <;> trivial
    | _ => trivial

theorem Bring.forked_begins (b : Bring) {t : PodThread} (ht : (NodeThread.pod t).Begins) :
    (b.forked w t).Begins := by
  unfold Bring.forked
  split
  · split
    · trivial
    · exact ht
  · exact ht

theorem NodeThread.new_begins {t t' u : NodeThread} {new : List NodeThread}
    (h : t.step w a = some (w', t', new)) (hu : u ∈ new) : u.Begins := by
  cases t with
  | pod t =>
    cases t with
    | bring b =>
      simp only [NodeThread.step] at h
      split at h
      · cases h
        cases hu
      · obtain ⟨r, hr, heq⟩ := Option.map_eq_some_iff.mp h
        cases heq
        obtain ⟨x, hx, rfl⟩ := List.mem_map.mp hu
        exact b.forked_begins (Bring.step_fork hr hx).1.begins
    | gone t =>
      obtain ⟨r, hr, heq⟩ := Option.map_eq_some_iff.mp h
      cases heq
      obtain ⟨q, hq, heq⟩ := Option.map_eq_some_iff.mp hr
      cases heq
      obtain ⟨x, hx, rfl⟩ := List.mem_map.mp hu
      obtain ⟨y, hy, rfl⟩ := List.mem_map.mp hx
      obtain ⟨vmID, rfl⟩ := WatchThread.step_forks hq hy
      exact ⟨vmID, rfl⟩
    | tail t | probe key pc =>
      obtain ⟨r, hr, heq⟩ := Option.map_eq_some_iff.mp h
      cases heq
      obtain ⟨q, -, heq⟩ := Option.map_eq_some_iff.mp hr
      cases heq
      cases hu
  | snapshot s =>
    cases h
    cases hu
  | fork f | delete d =>
    obtain ⟨r, -, heq⟩ := Option.map_eq_some_iff.mp h
    cases heq
    cases hu

theorem NodeThread.entry_holds {t : NodeThread} (h : t.entry = true) : t.holds = none := by
  cases t with
  | pod t =>
    cases t with
    | gone t =>
      cases t with
      | hibernate hib => rfl
      | watch g =>
        obtain ⟨role, pc⟩ := g
        cases role <;> cases pc <;> first | rfl | cases h
    | _ => rfl
  | snapshot s => rfl
  | fork f => rfl
  | delete d =>
    have hpc : d.pc = .claim := by
      simp only [NodeThread.entry, Bool.and_eq_true, beq_iff_eq] at h
      exact h.2
    simp only [NodeThread.holds, Delete.holds, hpc]

theorem NodeThread.step_lock {t t' : NodeThread} {new : List NodeThread}
    (h : t.step w a = some (w', t', new)) :
    Program.LockMove w.fenced w'.fenced t.holds t'.holds := by
  have ht := NodeThread.step_tables id h
  have hkeep : (t.op w a).all Fence.ambient = true → t'.holds = t.holds →
      Program.LockMove w.fenced w'.fenced t.holds t'.holds := by
    intro ho hh
    exact .keep hh (fenced_of_op ht (not_fence_of_ambient ho))
  cases t with
  | pod t =>
    cases t with
    | bring b =>
      simp only [NodeThread.step] at h
      split at h
      next s hs =>
        cases h
        refine hkeep ?_ rfl
        simp only [NodeThread.op, hs]
        rfl
      next hs =>
        obtain ⟨r, hr, heq⟩ := Option.map_eq_some_iff.mp h
        cases heq
        refine hkeep ?_ rfl
        simp only [NodeThread.op, hs]
        exact b.op_ambient
    | gone t =>
      obtain ⟨r, hr, heq⟩ := Option.map_eq_some_iff.mp h
      cases heq
      obtain ⟨q, hq, heq⟩ := Option.map_eq_some_iff.mp hr
      cases heq
      cases t with
      | hibernate hib =>
        have ho := WatchThread.hibernate_op_ambient (w := w) (a := a) hib
        simp only [WatchThread.step] at hq
        split at hq
        · cases hq
          exact hkeep ho rfl
        · obtain ⟨s, -, heq⟩ := Option.map_eq_some_iff.mp hq
          cases heq
          exact hkeep ho rfl
      | watch g =>
        obtain ⟨s, hs, heq⟩ := Option.map_eq_some_iff.mp hq
        cases heq
        exact Watch.step_lock hs
    | tail t =>
      obtain ⟨r, hr, heq⟩ := Option.map_eq_some_iff.mp h
      cases heq
      obtain ⟨q, -, heq⟩ := Option.map_eq_some_iff.mp hr
      cases heq
      exact hkeep (t.job.op_ambient t.pc) rfl
    | probe key pc =>
      obtain ⟨r, hr, heq⟩ := Option.map_eq_some_iff.mp h
      cases heq
      obtain ⟨q, -, heq⟩ := Option.map_eq_some_iff.mp hr
      cases heq
      exact hkeep (pc.op_ambient key) rfl
  | snapshot s =>
    cases h
    refine hkeep rfl ?_
    unfold SnapshotCall.step
    split
    · dsimp only
      split <;> rfl
    · split <;> rfl
    · rfl
    · rfl
    · rfl
  | fork f =>
    obtain ⟨r, -, heq⟩ := Option.map_eq_some_iff.mp h
    cases heq
    exact hkeep rfl rfl
  | delete d =>
    obtain ⟨r, hr, heq⟩ := Option.map_eq_some_iff.mp h
    cases heq
    exact Delete.step_lock hr

/- A thread's section is of the fence or looks at it. -/
theorem NodeThread.op_lawful (t : NodeThread) :
    (t.op w a).all (fun op => Fence.ambient op || op.isFence) = true := by
  have hambient : ∀ o : Option TableOp, o.all Fence.ambient = true →
      o.all (fun op => Fence.ambient op || op.isFence) = true := by
    intro o ho
    cases o with
    | none => rfl
    | some op => simpa using Or.inl ho
  cases t with
  | pod t =>
    cases t with
    | bring b =>
      simp only [NodeThread.op]
      split
      · rfl
      · exact hambient _ b.op_ambient
    | gone t =>
      cases t with
      | hibernate hib => exact hambient _ (WatchThread.hibernate_op_ambient (a := a) hib)
      | watch g =>
        obtain ⟨role, pc⟩ := g
        cases pc with
        | schedule =>
          simp only [NodeThread.op, PodThread.op, WatchThread.op, Watch.op]
          split <;> rfl
        | leave =>
          cases role <;> rfl
        | _ => rfl
    | tail t => exact hambient _ (t.job.op_ambient t.pc)
    | probe key pc => exact hambient _ (pc.op_ambient key)
  | snapshot s => rfl
  | fork f => rfl
  | delete d =>
    obtain ⟨pod, keepSnapshots, shouldSnapshot, pc⟩ := d
    cases pc <;> rfl

theorem NodeThread.step_freezes {t t' : NodeThread} {new : List NodeThread} {k : Key}
    (h : t.step w a = some (w', t', new)) (hk : w.fenced k) :
    Fence.Frozen k w.tables w'.tables := by
  rw [NodeThread.step_tables id h]
  have ho := t.op_lawful (w := w) (a := a)
  cases hop : t.op w a with
  | none => exact .of_eq rfl rfl
  | some op =>
    rw [hop, Option.all_some, Bool.or_eq_true] at ho
    rcases ho with ho | ho
    · exact Fence.ambient_freezes id ho hk
    · exact Fence.fence_freezes id ho k

end Fence

section Pool
variable {S : Type} [DecidableEq S] (snapshot : LifecycleStatus → S)

theorem nodeThreads_env {w w' : World} {o : PodAround} (h : (nodeThreads snapshot).env w o = some w') :
    o.op.all Fence.ambient = true ∧ w' = w.podAround snapshot o := by
  simp only [nodeThreads] at h
  split at h
  next ho =>
    cases h
    exact ⟨ho, rfl⟩
  next => cases h

theorem nodeThreads_env_fenced {w w' : World} {o : PodAround}
    (h : (nodeThreads snapshot).env w o = some w') (k : Key) (hk : w.fenced k) : w'.fenced k := by
  obtain ⟨ho, rfl⟩ := nodeThreads_env snapshot h
  refine fenced_of_deleting ?_ k hk
  rw [World.podAround_tables]
  cases hop : o.op with
  | none => rfl
  | some op =>
    rw [hop] at ho
    exact run_deleting snapshot w.tables op (Fence.ambient_not_fence ho)

theorem nodeThreads_env_freezes {w w' : World} {o : PodAround} {k : Key}
    (h : (nodeThreads snapshot).env w o = some w') (hk : w.fenced k) :
    Fence.Frozen k w.tables w'.tables := by
  obtain ⟨ho, rfl⟩ := nodeThreads_env snapshot h
  rw [World.podAround_tables]
  cases hop : o.op with
  | none => exact .of_eq rfl rfl
  | some op =>
    rw [hop] at ho
    exact Fence.ambient_freezes snapshot ho hk

/- Whatever notes are taken of the steps, the fences keep their holders apart. -/
theorem nodeThreads_locked {η : Type} {log : World → NodeThread → Answer → World → NodeThread → η → η}
    {logEnv : World → PodAround → World → η → η} {c c' : Config (World × η) NodeThread}
    {e : NodeEvent}
    (hc : Program.Locked NodeThread.holds (fun s => s.1.fenced) c)
    (h : ((nodeThreads snapshot).record log logEnv).next c e = some c') :
    Program.Locked NodeThread.holds (fun s => s.1.fenced) c' := by
  refine Program.next_locked _ ?_ ?_ ?_ hc h
  · intro s t ht
    exact NodeThread.entry_holds ht
  · intro s i t a s' t' new hs
    obtain ⟨hstep, -⟩ := Program.record_step _ _ _ hs
    exact ⟨NodeThread.step_lock hstep, fun u hu => (NodeThread.new_begins hstep hu).holds⟩
  · intro s o s' hs
    exact nodeThreads_env_fenced snapshot (Program.record_env _ _ _ hs).1

end Pool
end VkCocoon
