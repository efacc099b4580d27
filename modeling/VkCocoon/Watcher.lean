import VkCocoon.Lib.Pool
import VkCocoon.Hibernate

/-!
# The VM event watcher

`handleVMGone` and the deferred recheck goroutine, with the eviction they share, as
threads that take one call or one critical section at a time, next to `hibernate`. A
`GonePC` is the point at which a thread stands, together with what it has in its local
variables there.
-/

namespace VkCocoon
open Lib Tables

/-- What `podForVMMatch` returned: the key, the copy of the pod, the tracked record. -/
structure Match where
  key : Key
  pod : Pod
  v : VM
deriving DecidableEq, Repr

/-- The callers of an eviction: `evictGoneIncarnation` from the handler, the same from the
recheck loop, and `removeThenEvict`. -/
inductive Evict where
  | gone
  | recheck
  | removed
deriving DecidableEq, Repr

inductive GonePC where
  -- handleVMGone
  | lookup (id : VMID) (name : String)
  | flags (m : Match)
  | inspect (m : Match) (attempt : ℕ)
  | cooldown (m : Match) (inspected : VM)
  | start (m : Match) (inspected : VM)
  | reinspect (m : Match)
  | refresh (m : Match) (fresh : VM)
  -- liftClearedHibernateFailure
  | liftRead (m : Match)
  | liftInspect (m : Match) (v : VM)
  | retryLater (m : Match)
  | lift (m : Match)
  | markReady (m : Match)
  -- evictGoneIncarnation, removeThenEvict
  | claim (m : Match) (v : VM) (site : Evict)
  | remove (m : Match) (v : VM)
  | releaseLeases (m : Match) (v : VM) (site : Evict)
  | deletePod (m : Match) (v : VM) (site : Evict) (attempt : ℕ)
  | untrack (m : Match) (v : VM) (site : Evict)
  | finish (m : Match) (v : VM) (site : Evict) (result : Bool)
  | check (m : Match) (v : VM) (site : Evict)
  | schedule (m : Match) (v : VM) (site : Evict)
  -- runDeferredRecheck
  | sleep
  | look
  | recheckInspect (m : Match)
  /-- the deferred removal of `pendingRecheck[vmID]` -/
  | leave
  | done
deriving DecidableEq, Repr

/-- An event of the watch loop, or the recheck goroutine of a VM. -/
inductive Role where
  | event
  | recheck (vmID : VMID)
deriving DecidableEq, Repr

structure Watch where
  role : Role
  pc : GonePC
deriving DecidableEq, Repr

/-- The answers a step may get: of the call it makes, which entry the map iteration meets
first, the clock, whether the recheck budget is spent, whether a sleep notices that the
context is canceled. -/
structure Answer where
  reply : Reply
  pick : ℕ
  now : ℕ
  expired : Bool
  cut : Bool
deriving DecidableEq, Repr

def inlineInspectAttempts : ℕ := 2
def evictDeleteAttempts : ℕ := 2

/-- `scheduleDeferredRecheck`; the list is the goroutine it starts. -/
def World.scheduleDeferredRecheck (w : World) (vmID : VMID) : World × List Watch :=
  if w.closed || w.tables.pendingRecheck.has vmID then (w, [])
  else
    (w.onTables (·.addPendingRecheck vmID), [⟨.recheck vmID, .sleep⟩])

/-- `podForVMMatch`: `none` is not an answer the call can give, `some none` is no match. -/
def World.podForVMMatch (w : World) (id : VMID) (name : String) (pick : ℕ) : Option (Option Match) :=
  match w.tables.podForVMMatch id name with
  | [] => some none
  | ms => ms[pick]?.bind fun kv => (w.tables.pods.get kv.1).map fun pod => some ⟨kv.1, pod, kv.2⟩

namespace Role

/-- Where a thread stands after `handleVMGone` or `removeThenEvict` returned `b` to it. -/
def ret : Role → Bool → GonePC
  | .event, _ => .done
  | .recheck _, true => .sleep
  | .recheck _, false => .leave

end Role

/-- Where `evictPod` returns to. -/
def Evict.evicted (m : Match) (v : VM) : Evict → GonePC
  | .removed => .check m v .removed
  | site => .finish m v site true

/-- One step of a handler or a recheck: the world, the next point, the goroutine started. -/
def Watch.step (w : World) (role : Role) (a : Answer) : GonePC → Option (World × GonePC × List Watch)
  | .lookup id name =>
    (w.podForVMMatch id name a.pick).map fun
      | none => (w, role.ret false, [])
      | some m => (w, if m.pod.spec.managed then .flags m else role.ret false, [])
  | .flags m =>
    match w.tables.noteVMGone m.key with
    | (t, midHibernate, midDelete) =>
      some ({ w with tables := t },
        if midHibernate || midDelete then role.ret false else .inspect m 0, [])
  | .inspect m attempt =>
    match w.inspect m.v.id a.reply with
    | .notFound => some (w, .claim m m.v .gone, [])
    | .inconclusive _ =>
      some (w, if attempt + 1 < inlineInspectAttempts && !(w.closed && a.cut) then
          .inspect m (attempt + 1) else .schedule m m.v .gone, [])
    | .found v => some (w, if v.state = .running then role.ret false else .cooldown m v, [])
  | .cooldown m inspected =>
    match w.tables.takeRestart m.v.id a.now with
    | (t, cooldownElapsed) =>
      some ({ w with tables := t },
        if cooldownElapsed then .start m inspected else .claim m inspected .removed, [])
  | .start m inspected =>
    match w.start m.v.id a.reply with
    | (w, none) => some (w, .reinspect m, [])
    | (w, some _) => some (w, .claim m inspected .removed, [])
  | .reinspect m =>
    match w.inspect m.v.id a.reply with
    | .found fresh => some (w, .refresh m fresh, [])
    | _ => some (w, .liftRead m, [])
  | .refresh m fresh =>
    some (w.onTables fun t =>
      (t.updateTrackedVM m.key m.v.id (.restarted fresh.pid fresh.networkConfigs)).1,
      .liftRead m, [])
  | .liftRead m =>
    if m.pod.hibernate then some (w, role.ret false, [])
    else
      match w.tables.hibernateFailedVMLocked m.key m.pod.uid with
      | none => some (w, role.ret false, [])
      | some v => some (w, if isMacosVM v then .lift m else .liftInspect m v, [])
  | .liftInspect m v =>
    match w.inspect v.id a.reply with
    | .notFound => some (w, role.ret false, [])
    | .inconclusive _ => some (w, .retryLater m, [])
    | .found live => some (w, if live.state = .running then .lift m else role.ret false, [])
  | .retryLater m => some (w.onTables (·.retryOpLater m.pod 0 a.now), role.ret false, [])
  | .lift m =>
    match w.tables.liftHibernateFailureLocked m.pod with
    | (t, lifted, _) =>
      some ({ w with tables := t }, if lifted then .markReady m else role.ret false, [])
  | .markReady m =>
    some (w.onTables fun t => (t.applyLifecycleLocked m.pod .ready "").1, role.ret false, [])
  | .claim m v site =>
    match w.tables.claimDeletingIncarnation m.key m.pod.uid v.id with
    | (t, true) =>
      some ({ w with tables := t },
        if site = .removed then .remove m v else .releaseLeases m v site, [])
    | (t, false) =>
      some ({ w with tables := t }, if site = .removed then role.ret false else .check m v site, [])
  | .remove m v =>
    match w.remove v.id a.reply with
    | (w, none) => some (w, .releaseLeases m v .removed, [])
    | (w, some _) => some (w, .finish m v .removed false, [])
  | .releaseLeases m v site => some (w.releaseDHCPLeases v, .deletePod m v site 0, [])
  | .deletePod m v site attempt =>
    match w.deletePod m.key m.pod.uid a.reply with
    | (w, .failed) =>
      some (w, if attempt + 1 < evictDeleteAttempts && !(w.closed && a.cut) then
          .deletePod m v site (attempt + 1) else site.evicted m v, [])
    | (w, _) => some (w, .untrack m v site, [])
  | .untrack m v site =>
    some (w.onTables fun t => (t.untrackIncarnationLocked m.key m.pod.uid).1,
      site.evicted m v, [])
  | .finish m v site result =>
    some (w.onTables (·.finishDeleting m.key),
      if site = .removed then role.ret result else .check m v site, [])
  | .check m v site =>
    let tracked := w.tables.trackedPodMatches m.key m.pod.uid
    some (w,
      match site with
      | .gone => if tracked then .schedule m v .gone else role.ret false
      | .recheck => role.ret tracked
      | .removed => if tracked then .schedule m v .removed else .finish m v .removed false, [])
  | .schedule m v site =>
    match w.scheduleDeferredRecheck v.id with
    | (w, new) =>
      some (w, if site = .removed then .finish m v .removed true else role.ret true, new)
  | .sleep =>
    match role with
    | .event => none
    | .recheck _ => some (w, if w.closed && a.cut then .leave else .look, [])
  | .look =>
    match role with
    | .event => none
    | .recheck vmID =>
      (w.podForVMMatch vmID "" a.pick).map fun
        | none => (w, .leave, [])
        | some m => (w, .recheckInspect m, [])
  | .recheckInspect m =>
    match role with
    | .event => none
    | .recheck vmID =>
      match w.inspect vmID a.reply with
      | .notFound => some (w, .claim m m.v .recheck, [])
      | .inconclusive _ => some (w, if a.expired then .claim m m.v .removed else .sleep, [])
      -- a synthetic event for a VM that does not run
      | .found v => some (w, if v.state = .running then .leave else .lookup v.id v.name, [])
  | .leave =>
    match role with
    | .event => none
    | .recheck vmID =>
      some (w.onTables (·.dropPendingRecheck vmID), .done, [])
  | .done => none

/-- The critical section a step enters. -/
def Watch.op (w : World) (role : Role) (a : Answer) : GonePC → Option TableOp
  | .flags m => some (.noteVMGone m.key)
  | .cooldown m _ => some (.takeRestart m.v.id a.now)
  | .refresh m fresh =>
    some (.updateTrackedVM m.key m.v.id (.restarted fresh.pid fresh.networkConfigs))
  | .retryLater m => some (.retryOpLater m.pod 0 a.now)
  | .lift m => some (.liftHibernateFailure m.pod)
  | .markReady m => some (.setLifecycleState m.pod .ready "")
  | .claim m v _ => some (.claimDeletingIncarnation m.key m.pod.uid v.id)
  | .untrack m _ _ => some (.untrackIncarnation m.key m.pod.uid)
  | .finish m _ _ _ => some (.finishDeleting m.key)
  | .schedule _ v _ =>
    if w.closed || w.tables.pendingRecheck.has v.id then none else some (.addPendingRecheck v.id)
  | .leave =>
    match role with
    | .event => none
    | .recheck vmID => some (.dropPendingRecheck vmID)
  | _ => none

/-! ### The pool -/

inductive WatchThread where
  | hibernate (h : Hib)
  | watch (g : Watch)
deriving DecidableEq, Repr

/-- What happens around the threads: sections of other goroutines, the runtime and the
apiserver changing by themselves, `Close`. -/
inductive Around where
  | table (op : TableOp)
  | runtime (id : VMID) (v : Option VM)
  | apiPod (key : Key) (uid : Option UID)
  | close
deriving DecidableEq, Repr

abbrev WatchConfig := Config World WatchThread
abbrev WatchEvent := PoolEvent WatchThread Answer Around

section Pool
variable {S : Type} [DecidableEq S] (snapshot : LifecycleStatus → S)

def WatchThread.step (w : World) (a : Answer) :
    WatchThread → Option (World × WatchThread × List WatchThread)
  | .hibernate h =>
    if h.pc = .schedule then
      match w.scheduleDeferredRecheck h.v.id with
      | (w, new) => some (w, .hibernate { h with pc := .done }, new.map .watch)
    else (h.step w a.reply).map fun s => (s.1, .hibernate s.2, [])
  | .watch g =>
    (Watch.step w g.role a g.pc).map fun s => (s.1, .watch { g with pc := s.2.1 }, s.2.2.map .watch)

def World.around (w : World) : Around → World
  | .table op => w.onTables (op.run snapshot)
  | .runtime id none => { w with runtime := w.runtime.del id }
  | .runtime id (some v) => { w with runtime := w.runtime.set id v }
  | .apiPod key none => { w with apiPods := w.apiPods.del key }
  | .apiPod key (some uid) => { w with apiPods := w.apiPods.set key uid }
  | .close => { w with closed := true }

/-- Events enter at the top of `handleVMGone`, hibernates at `startHibernate`; a recheck is
started by the code itself. -/
def WatchThread.entry : WatchThread → Bool
  | .hibernate h => h.pc = .startHibernate
  | .watch ⟨.event, .lookup _ _⟩ => true
  | .watch _ => false

/-- The flags of `hibernate` and of the rechecks are written by the threads of the pool alone. -/
def Around.allowed : Around → Bool
  | .table op => !op.isGoneFlag
  | _ => true

def watchers : Program World WatchThread Answer Around where
  entry _ t := t.entry
  step w _ t a := t.step w a
  env w o := if o.allowed then some (w.around snapshot o) else none

end Pool

/-! ### What the steps do to the tables -/

section Effects
variable {S : Type} [DecidableEq S] (snapshot : LifecycleStatus → S)
variable {w w' : World} {role : Role} {a : Answer} {pc pc' : GonePC} {new : List Watch}

theorem Watch.step_tables (h : Watch.step w role a pc = some (w', pc', new)) :
    w'.tables = w.tables.runOption snapshot (Watch.op w role a pc) := by
  cases pc with
  | lookup id name =>
    obtain ⟨m, -, hm⟩ := Option.map_eq_some_iff.mp h
    cases m <;> cases hm <;> rfl
  | inspect m attempt =>
    simp only [Watch.step] at h
    split at h <;> cases h <;> rfl
  | start m inspected =>
    simp only [Watch.step] at h
    have ht := w.start_tables m.v.id a.reply
    split at h <;> next heq => cases h; rw [heq] at ht; exact ht
  | reinspect m =>
    simp only [Watch.step] at h
    split at h <;> cases h <;> rfl
  | liftRead m =>
    simp only [Watch.step] at h
    split at h
    · cases h
      rfl
    · split at h <;> cases h <;> rfl
  | liftInspect m v =>
    simp only [Watch.step] at h
    split at h <;> cases h <;> rfl
  | claim m v site =>
    simp only [Watch.step] at h
    split at h <;> next heq => cases h; simp only [Watch.op, runOption, TableOp.run, heq]
  | remove m v =>
    simp only [Watch.step] at h
    have ht := w.remove_tables v.id a.reply
    split at h <;> next heq => cases h; rw [heq] at ht; exact ht
  | deletePod m v site attempt =>
    simp only [Watch.step] at h
    have ht := w.deletePod_tables a.reply m.key m.pod.uid
    split at h <;> next heq => cases h; rw [heq] at ht; exact ht
  | schedule m v site =>
    simp only [Watch.step, World.scheduleDeferredRecheck] at h
    simp only [Watch.op]
    split at h <;> next hc =>
      cases h
      simp only [hc]
      rfl
  | sleep =>
    cases role <;> cases h
    rfl
  | look =>
    cases role with
    | event => cases h
    | recheck vmID =>
      obtain ⟨m, -, hm⟩ := Option.map_eq_some_iff.mp h
      cases m <;> cases hm <;> rfl
  | recheckInspect m =>
    cases role with
    | event => cases h
    | recheck vmID =>
      simp only [Watch.step] at h
      split at h <;> cases h <;> rfl
  | leave =>
    cases role <;> cases h
    rfl
  | done => cases h
  | _ =>
    cases h
    rfl

/- A match is an entry of the tables. -/
theorem World.podForVMMatch_some {id : VMID} {name : String} {pick : ℕ} {m : Match}
    (h : w.podForVMMatch id name pick = some (some m)) :
    w.tables.pods.get m.key = some m.pod ∧ w.tables.vmsByPod.get m.key = some m.v ∧
      (name = "" → m.v.id = id) := by
  unfold World.podForVMMatch at h
  split at h
  next => cases h
  next =>
    obtain ⟨kv, hkv, h⟩ := Option.bind_eq_some_iff.mp h
    obtain ⟨pod, hpod, hm⟩ := Option.map_eq_some_iff.mp h
    cases hm
    obtain ⟨hget, hp⟩ := (GoMap.mem_picks _ _ _ _).mp (List.mem_of_getElem? hkv)
    refine ⟨hpod, hget, fun hn => ?_⟩
    simp only [hn, Bool.and_eq_true, Bool.or_eq_true, beq_iff_eq] at hp
    rcases hp.2 with hid | ⟨hne, -⟩
    · exact hid
    · exact absurd hne (by decide)

/- A goroutine is started by a schedule step alone. -/
theorem Watch.step_new {g : Watch} (h : Watch.step w role a pc = some (w', pc', new))
    (hg : g ∈ new) :
    ∃ m v site, pc = .schedule m v site ∧ g = ⟨.recheck v.id, .sleep⟩ := by
  cases pc with
  | schedule m v site =>
    refine ⟨m, v, site, rfl, ?_⟩
    simp only [Watch.step, World.scheduleDeferredRecheck] at h
    split at h <;> cases h
    · cases hg
    · exact List.mem_singleton.mp hg
  | lookup id name =>
    obtain ⟨m, -, hm⟩ := Option.map_eq_some_iff.mp h
    cases m <;> cases hm <;> cases hg
  | look =>
    cases role with
    | event => cases h
    | recheck vmID =>
      obtain ⟨m, -, hm⟩ := Option.map_eq_some_iff.mp h
      cases m <;> cases hm <;> cases hg
  | sleep | recheckInspect | leave =>
    cases role with
    | event => cases h
    | recheck vmID =>
      simp only [Watch.step] at h
      first | (cases h; cases hg) | (split at h <;> cases h <;> cases hg)
  | liftRead m =>
    simp only [Watch.step] at h
    split at h
    · cases h
      cases hg
    · split at h <;> cases h <;> cases hg
  | inspect | start | reinspect | liftInspect | claim | remove | deletePod =>
    simp only [Watch.step] at h
    split at h <;> cases h <;> cases hg
  | done => cases h
  | _ => cases h; cases hg

/- What a thread forks is a recheck that is about to sleep. -/
theorem WatchThread.step_forks {t t' u : WatchThread} {forked : List WatchThread}
    (h : t.step w a = some (w', t', forked)) (hu : u ∈ forked) :
    ∃ vmID, u = .watch ⟨.recheck vmID, .sleep⟩ := by
  cases t with
  | hibernate hib =>
    simp only [WatchThread.step, World.scheduleDeferredRecheck] at h
    split at h
    · split at h <;> cases h
      · cases hu
      · exact ⟨hib.v.id, List.mem_singleton.mp hu⟩
    · obtain ⟨s, -, heq⟩ := Option.map_eq_some_iff.mp h
      cases heq
      cases hu
  | watch g =>
    obtain ⟨s, hs, heq⟩ := Option.map_eq_some_iff.mp h
    cases heq
    obtain ⟨g', hg', rfl⟩ := List.mem_map.mp hu
    obtain ⟨m, v, site, -, rfl⟩ := Watch.step_new hs hg'
    exact ⟨v.id, rfl⟩

end Effects

def sure : Answer := ⟨.ok, 0, 0, false, false⟩
def unsure : Answer := ⟨.failed "timeout", 0, 0, false, false⟩

end VkCocoon
