import VkCocoon.PodCalls
import VkCocoon.Node
import VkCocoon.NameIndex.Fleet

/-!
# The calls and the two indexes

`FleetCall` has what `CreatePod`, `UpdatePod` and `DeletePod` do to the two indexes. A run of `Bring`
or of `Delete` is a run of it. The tables of the two are alike: they agree on all that the indexes
depend on, and differ in what the lifecycle and the retries write.
-/

namespace VkCocoon
open Lib Tables

/-! ### What the two indexes depend on -/

namespace Tables

/-- The tables agree on who is tracked, on the VMs, on the fence and on the resumed work. -/
structure Alike (t t' : Tables) : Prop where
  owner : ∀ key, (t.pods.get key).map (·.uid) = (t'.pods.get key).map (·.uid)
  vmsByPod : t.vmsByPod = t'.vmsByPod
  vmsByName : t.vmsByName = t'.vmsByName
  deleting : t.deleting = t'.deleting
  resumedOps : t.resumedOps = t'.resumedOps

section Alike
variable {t t' u : Tables}

theorem Alike.trans (h : Alike u t) (h' : Alike t t') : Alike u t' where
  owner key := (h.owner key).trans (h'.owner key)
  vmsByPod := h.vmsByPod.trans h'.vmsByPod
  vmsByName := h.vmsByName.trans h'.vmsByName
  deleting := h.deleting.trans h'.deleting
  resumedOps := h.resumedOps.trans h'.resumedOps

theorem Alike.symm (h : Alike t t') : Alike t' t :=
  ⟨fun key => (h.owner key).symm, h.vmsByPod.symm, h.vmsByName.symm, h.deleting.symm, h.resumedOps.symm⟩

theorem Alike.superseded (h : Alike t t') (key : Key) (uid : UID) :
    t.supersededLocked key uid = t'.supersededLocked key uid := by
  have hany : ∀ o : Option Pod, o.any (·.uid != uid) = (o.map (·.uid)).any (· != uid) := by
    intro o
    cases o <;> rfl
  unfold supersededLocked
  rw [hany, hany, h.owner]

theorem Alike.matches (h : Alike t t') (key : Key) (uid : UID) :
    t.trackedPodMatches key uid = t'.trackedPodMatches key uid := by
  have hany : ∀ o : Option Pod, o.any (·.uid == uid) = (o.map (·.uid)).any (· == uid) := by
    intro o
    cases o <;> rfl
  unfold trackedPodMatches
  rw [hany, hany, h.owner]

theorem Alike.deletingLocked (h : Alike t t') (key : Key) : t.deletingLocked key = t'.deletingLocked key :=
  congrArg (fun m => m.has key) h.deleting

theorem Alike.del (h : Alike t t') (key k : Key) :
    ((t.pods.del key).get k).map (·.uid) = ((t'.pods.del key).get k).map (·.uid) := by
  rw [GoMap.get_del, GoMap.get_del]
  split
  · rfl
  · exact h.owner k

/- The sections that both calls enter. -/

theorem Alike.setVMLocked (h : Alike t t') (key : Key) (v : VM) :
    Alike (t.setVMLocked key v) (t'.setVMLocked key v) where
  owner := h.owner
  vmsByPod := by rw [setVMLocked_vmsByPod, setVMLocked_vmsByPod, h.vmsByPod]
  vmsByName := by simp only [Tables.setVMLocked, h.vmsByName]
  deleting := h.deleting
  resumedOps := h.resumedOps

theorem Alike.trackPodLocked (h : Alike t t') (pod : Pod) (v : Option VM) :
    Alike (t.trackPodLocked pod v) (t'.trackPodLocked pod v) := by
  obtain ⟨l, hl⟩ := t.trackPodLocked_eq pod v
  obtain ⟨l', hl'⟩ := t'.trackPodLocked_eq pod v
  have htracked : ∀ key, ((t.pods.set pod.key { pod with lifecycle := l }).get key).map (·.uid) =
      ((t'.pods.set pod.key { pod with lifecycle := l' }).get key).map (·.uid) := by
    intro key
    rw [GoMap.get_set, GoMap.get_set]
    split
    · rfl
    · exact h.owner key
  rw [hl, hl']
  cases v with
  | none => exact ⟨htracked, h.vmsByPod, h.vmsByName, h.deleting, h.resumedOps⟩
  | some v =>
    have hpods : Alike { t with
        pods := t.pods.set pod.key { pod with lifecycle := l }
        lifecycleIntent := (t.reassertLifecycleLocked pod).1.lifecycleIntent } { t' with
        pods := t'.pods.set pod.key { pod with lifecycle := l' }
        lifecycleIntent := (t'.reassertLifecycleLocked pod).1.lifecycleIntent } :=
      ⟨htracked, h.vmsByPod, h.vmsByName, h.deleting, h.resumedOps⟩
    exact hpods.setVMLocked pod.key v

theorem Alike.trackPodUnlessDeleting (h : Alike t t') (pod : Pod) (v : Option VM) :
    Alike (t.trackPodUnlessDeleting pod v).1 (t'.trackPodUnlessDeleting pod v).1 ∧
      (t.trackPodUnlessDeleting pod v).2 = (t'.trackPodUnlessDeleting pod v).2 := by
  unfold Tables.trackPodUnlessDeleting
  rw [h.deletingLocked]
  split
  · exact ⟨h, rfl⟩
  · exact ⟨h.trackPodLocked pod v, rfl⟩

theorem Alike.indexOrphan (h : Alike t t') (v : VM) :
    Alike (t.indexOrphanByNameLocked v) (t'.indexOrphanByNameLocked v) := by
  unfold indexOrphanByNameLocked
  split
  · exact h
  · exact ⟨h.owner, h.vmsByPod, congrArg (fun m => m.set v.name v) h.vmsByName, h.deleting, h.resumedOps⟩

theorem Alike.trackPodIncarnation (h : Alike t t') (pod : Pod) (v : VM) :
    Alike (t.trackPodIncarnation pod v).1 (t'.trackPodIncarnation pod v).1 ∧
      (t.trackPodIncarnation pod v).2 = (t'.trackPodIncarnation pod v).2 := by
  unfold Tables.trackPodIncarnation
  rw [h.deletingLocked, h.superseded]
  split
  · exact ⟨h.indexOrphan v, rfl⟩
  · exact ⟨h.trackPodLocked pod (some v), rfl⟩

theorem Alike.untrackLocked (h : Alike t t') (key : Key) :
    Alike (t.untrackLocked key) (t'.untrackLocked key) := by
  have hpods := h.del key
  unfold Tables.untrackLocked Tables.dropVMLocked
  rw [h.vmsByPod]
  cases t'.vmsByPod.get key with
  | none => exact ⟨hpods, h.vmsByPod, h.vmsByName, h.deleting, h.resumedOps⟩
  | some v =>
    refine ⟨hpods, rfl, ?_, h.deleting, h.resumedOps⟩
    simp only [h.vmsByName]

theorem Alike.detachIncarnation (h : Alike t t') (key : Key) (uid : UID) (v : Option VM) :
    Alike (t.detachIncarnation key uid v).1 (t'.detachIncarnation key uid v).1 ∧
      (t.detachIncarnation key uid v).2 = (t'.detachIncarnation key uid v).2 := by
  have huntrack : Alike (t.untrackIncarnationLocked key uid).1 (t'.untrackIncarnationLocked key uid).1 := by
    unfold untrackIncarnationLocked
    rw [h.matches]
    split
    · exact h.untrackLocked key
    · exact h
  unfold Tables.detachIncarnation
  rw [h.deletingLocked]
  split
  · exact ⟨h, rfl⟩
  · refine ⟨?_, rfl⟩
    cases v with
    | none => exact huntrack
    | some v =>
      simp only [indexDetached, huntrack.vmsByPod]
      split
      · exact huntrack
      · exact huntrack.indexOrphan v

theorem Alike.dropStaleIndex (h : Alike t t') (name : String) (existing : VM) :
    Alike (t.dropStaleIndex name existing) (t'.dropStaleIndex name existing) := by
  unfold Tables.dropStaleIndex
  rw [h.vmsByName]
  split
  · exact ⟨h.owner, h.vmsByPod, rfl, h.deleting, h.resumedOps⟩
  · exact h

theorem Alike.claimDeleting (h : Alike t t') (key : Key) (uid : UID) :
    Alike (t.claimDeleting key uid).1 (t'.claimDeleting key uid).1 ∧
      (t.claimDeleting key uid).2 = (t'.claimDeleting key uid).2 := by
  unfold Tables.claimDeleting
  rw [h.superseded, h.deletingLocked]
  split
  · exact ⟨h, rfl⟩
  · split
    · exact ⟨h, rfl⟩
    · exact ⟨⟨h.owner, h.vmsByPod, h.vmsByName, congrArg (fun m => m.set key ()) h.deleting, h.resumedOps⟩, rfl⟩

theorem Alike.finishDeleting (h : Alike t t') (key : Key) :
    Alike (t.finishDeleting key) (t'.finishDeleting key) :=
  ⟨h.owner, h.vmsByPod, h.vmsByName, congrArg (fun m => m.del key) h.deleting, h.resumedOps⟩

theorem Alike.failCreate (h : Alike t t') (pod : Pod) (absent : Bool) :
    Alike (t.failCreate pod absent) (t'.failCreate pod absent) := by
  have hpods := h.del pod.key
  unfold Tables.failCreate
  rw [h.superseded]
  split
  · exact h
  · split
    · exact ⟨hpods, h.vmsByPod, h.vmsByName, h.deleting, h.resumedOps⟩
    · split <;> exact ⟨hpods, h.vmsByPod, h.vmsByName, h.deleting, h.resumedOps⟩

/- The sections about other things. -/

/- A write to the tracked pod that leaves its UID. -/
theorem owner_write {m : GoMap Key Pod} {key : Key} {pod pod' : Pod} (hpod : m.get key = some pod)
    (huid : pod'.uid = pod.uid) (k : Key) : ((m.set key pod').get k).map (·.uid) = (m.get k).map (·.uid) := by
  rw [GoMap.get_set]
  split
  next hk => rw [hk, hpod, Option.map_some, Option.map_some, huid]
  next => rfl

theorem alike_refl (t : Tables) : Alike t t := ⟨fun _ => rfl, rfl, rfl, rfl, rfl⟩

theorem alike_mutatePod (t : Tables) (pod : Pod) {f : Pod → Pod} (hf : ∀ p, (f p).uid = p.uid) :
    Alike (t.mutatePod pod f) t := by
  unfold mutatePod
  split
  · exact t.alike_refl
  next tracked htracked =>
    split
    · exact ⟨owner_write htracked (hf tracked), rfl, rfl, rfl, rfl⟩
    · exact t.alike_refl

theorem alike_lifecycle (t : Tables) (pod : Pod) (state : LifecycleState) (message : String) :
    Alike (t.applyLifecycleLocked pod state message).1 t := by
  unfold applyLifecycleLocked
  dsimp only
  split
  · exact t.alike_refl
  · cases hpod : t.pods.get pod.key with
    | none => exact ⟨fun _ => rfl, rfl, rfl, rfl, rfl⟩
    | some tracked => exact ⟨owner_write hpod rfl, rfl, rfl, rfl, rfl⟩

theorem alike_clearRuntimeAnnotations (t : Tables) (pod : Pod) : Alike (t.clearRuntimeAnnotations pod) t := by
  unfold clearRuntimeAnnotations
  split
  · exact t.alike_refl
  · exact t.alike_mutatePod pod fun _ => rfl

theorem alike_retryOpLater (t : Tables) (pod : Pod) (prev now : ℕ) : Alike (t.retryOpLater pod prev now) t := by
  unfold retryOpLater
  dsimp only
  split <;> exact ⟨fun _ => rfl, rfl, rfl, rfl, rfl⟩

theorem alike_republish (t : Tables) (pod : Pod) : Alike (t.republishLifecycleOnGenerationBump pod).1 t := by
  unfold republishLifecycleOnGenerationBump
  split
  · exact t.alike_refl
  · split
    · exact t.alike_refl
    · exact t.alike_lifecycle pod _ _

theorem alike_lift (t : Tables) (pod : Pod) : Alike (t.liftHibernateFailureLocked pod).1 t := by
  unfold liftHibernateFailureLocked
  split
  · exact t.alike_refl
  · exact t.alike_lifecycle pod .creating ""

theorem Alike.applyVMRuntime (h : Alike t t') (pod : Pod) (vmid : VMID) (ip : String) :
    Alike (t.applyVMRuntime pod vmid ip).1 (t'.applyVMRuntime pod vmid ip).1 ∧
      (t.applyVMRuntime pod vmid ip).2 = (t'.applyVMRuntime pod vmid ip).2 := by
  have hwrite : ∀ u : Tables, Alike (u.mutatePod pod fun p => { p with vmid := vmid, ip := ip }) u :=
    fun u => u.alike_mutatePod pod fun _ => rfl
  unfold Tables.applyVMRuntime
  rw [h.superseded]
  split
  · exact ⟨h, rfl⟩
  · exact ⟨((hwrite t).trans h).trans (hwrite t').symm, rfl⟩

end Alike

end Tables

/-! ### The calls and the two indexes -/

/-- A call of the fleet alone. -/
def fleetCall : Machine (Fleet × FleetCall) FleetAnswer :=
  ⟨fun s a => (s.2.step s.1 a).map fun r => (r.1, { s.2 with pc := r.2 })⟩

namespace BringPC

/-- The points of `updatePod` from which no VM is bound. -/
def rests : BringPC → Bool
  | .republish | .retryLater _ | .wakeFail _ _ | .liftRead (.update _) | .liftInspect _ (.update _)
  | .lift (.update _) | .markReady false | .done => true
  | _ => false

/-- Where `applyUpdate` goes with the VM of the key. -/
def applies (pod : Pod) (v : Option VM) : FleetPC := if v.isNone && !pod.hibernate then .wake else .done

/-- The points of `UpdatePod` and `CreatePod`. What follows a bind is left out. -/
inductive Indexes (pod : Pod) (launched : VM) : BringPC → FleetPC → Prop where
  | resuming : Indexes pod launched .backoff .resuming
  | look : Indexes pod launched .look .look
  | hasWakeSource : Indexes pod launched .wakeSourceCheck .hasWakeSource
  | replace (uid : UID) (v : Option VM) : Indexes pod launched (.detachOld uid v) (.replace uid v)
  | update (v : Option VM) : Indexes pod launched (.trackUpdate v) (.update v)
  | takeRetry (v : Option VM) : Indexes pod launched (.takeRetry v) (applies pod v)
  | apply (v : Option VM) (prev : ℕ) : Indexes pod launched (.apply v prev) (applies pod v)
  | wakeCreating (prev : ℕ) : Indexes pod launched (.wakeCreating prev) .wake
  | wakeClear (prev : ℕ) : Indexes pod launched (.wakeClear prev) .wake
  | wakeSource (prev : ℕ) : Indexes pod launched (.wakeSource prev) .wake
  | wakeClone (prev : ℕ) : Indexes pod launched (.wakeClone prev) .wake
  | rest (pc : BringPC) (h : pc.rests = true) : Indexes pod launched pc .done
  | track : Indexes pod launched .track .track
  | markCreating : Indexes pod launched .markCreating .adopt
  | adopt : Indexes pod launched .index .adopt
  | inspect (v : VM) (attempt : ℕ) : Indexes pod launched (.adoptInspect v attempt) (.inspect v)
  | drop (v : VM) : Indexes pod launched (.dropIndex v) (.drop v)
  | evidence : Indexes pod launched .evidence .bringUp
  | bringUp (restoring : Bool) : Indexes pod launched (.bringUp restoring) .bringUp
  | seed (restoring : Bool) : Indexes pod launched (.seed launched restoring) .bringUp
  | fail (msg : String) : Indexes pod launched (.fail msg) .failCreate
  | failCreate : Indexes pod launched .failCreate .failCreate
  | bind (v : VM) (site : BindSite) : Indexes pod launched (.bind v site) (.bind v)
  | stamp (v : VM) (site : BindSite) : Indexes pod launched (.stamp v site) (.stamp v)
  | patch (v : VM) (site : BindSite) : Indexes pod launched (.patch v site) (.patch v)
  | detach (v : VM) : Indexes pod launched (.detach v) (.detach v)
  | bound (v : VM) (site : BindSite) : Indexes pod launched (site.bound v) (.ended v)
  | ended (v : VM) : Indexes pod launched .done (.ended v)

/-- The VM is there, and the call has not got its address yet. -/
def seeds : BringPC → Bool
  | .seed _ _ => true
  | _ => false

end BringPC

/-- The call `b` in the world `w` as the fleet has it. -/
structure Bring.Shows (b : Bring) (w : World) (x : FleetCall) (f : Fleet) : Prop where
  pod : x.pod = b.pod
  point : b.pc.Indexes b.pod b.launched x.pc
  tables : Alike w.tables f.tables
  live : ∀ id, w.runtime.has id = (f.live.has id || (b.pc.seeds && id == b.launched.id))

/-- The runtime may launch the VM, and its record is the next that is made. -/
structure Fleet.Expects (f : Fleet) (v : VM) : Prop where
  free : f.live.Free v
  unmade : ∀ e ∈ f.made.toList, e.2.1 ≠ v.id
  addr : v.addr = f.tables.nextAddr

/-- The call may still launch its VM. -/
def FleetPC.launches : FleetPC → Bool
  | .resuming | .look | .hasWakeSource | .replace _ _ | .update _ | .wake | .track | .adopt | .inspect _ | .drop _
  | .bringUp => true
  | _ => false

section Call
variable {w w' : World} {a : Answer} {b : Bring} {pc' : BringPC} {new : List PodThread} {f : Fleet} {x : FleetCall}

/-- The run of the fleet's call that a step of `Bring` is. -/
def FleetRun (b : Bring) (f : Fleet) (x : FleetCall) (w' : World) (pc' : BringPC) : Prop :=
  fleetCall.Reaches (f, x) fun c => Bring.Shows { b with pc := pc' } w' c.2 c.1

theorem Fleet.Expects.launch {v : VM} (hf : f.Expects v) :
    ∃ l : LiveVMs, f.launch v = some { f with live := l } ∧ ∀ id, l.has id = (f.live.has id || id == v.id) := by
  refine ⟨f.live.add v hf.free, ?_, fun id => ?_⟩
  · rw [Fleet.launch, dif_pos ⟨hf.free, hf.unmade⟩]
  · simp only [LiveVMs.has, LiveVMs.add, GoMap.has_set]
    rw [Bool.or_comm]
    rfl

/- A launch that fails, with or without an effect. -/
theorem FleetCall.launched_fails {reply : Reply} {v : VM} (failed : FleetPC) {e : String}
    (hf : f.Expects v) (hname : v.name = x.pod.spec.vmName) (he : reply.err = some e) :
    ∃ f', x.launched f ⟨reply, v, false⟩ failed = some (f', failed) ∧ f'.tables = f.tables ∧
      ∀ id, f'.live.has id = (f.live.has id || (reply.lands && id == v.id)) := by
  unfold FleetCall.launched
  cases hlands : reply.lands with
  | false => exact ⟨f, rfl, rfl, fun id => by rw [Bool.false_and, Bool.or_false]⟩
  | true =>
    obtain ⟨l, hlaunch, hhas⟩ := hf.launch
    refine ⟨{ f with live := l }, ?_, rfl, fun id => by rw [Bool.true_and]; exact hhas id⟩
    simp only [Bool.not_true, Bool.false_eq_true, if_false, hname, ne_eq, not_true, hlaunch, Option.map_some, he,
      Option.isSome_some, if_true]

theorem FleetCall.launched_binds {v : VM} (failed : FleetPC) (hf : f.Expects v)
    (hname : v.name = x.pod.spec.vmName) :
    ∃ f', x.launched f ⟨.ok, v, false⟩ failed = some (f', .bind v) ∧ Alike f.tables f'.tables ∧
      ∀ id, f'.live.has id = (f.live.has id || id == v.id) := by
  obtain ⟨l, hlaunch, hhas⟩ := hf.launch
  refine ⟨Fleet.alloc { f with live := l } v, ?_, ⟨fun _ => rfl, rfl, rfl, rfl, rfl⟩, hhas⟩
  have hsame : (v.name ≠ x.pod.spec.vmName) = False := eq_false (not_not.mpr hname)
  unfold FleetCall.launched
  simp only [Reply.lands, Bool.not_true, Bool.false_eq_true, if_false, hsame, hlaunch, Option.map_some,
    Reply.err, Option.isSome_none, ← hf.addr]

theorem fleetCall_step (ans : FleetAnswer) {f' : Fleet} {pc : FleetPC} {Q : Fleet × FleetCall → Prop}
    (hstep : x.step f ans = some (f', pc)) (hq : Q (f', { x with pc := pc })) : fleetCall.Reaches (f, x) Q := by
  refine Machine.reaches_step ans ?_ hq
  simp only [fleetCall, hstep, Option.map_some]

theorem launch_has (w : World) (v : VM) (reply : Reply) (id : VMID) :
    (w.launch v reply).1.runtime.has id = (w.runtime.has id || (reply.lands && id == v.id)) := by
  unfold World.launch
  cases reply.lands with
  | false => simp
  | true =>
    simp only [if_true, GoMap.has_set, Bool.true_and]
    rw [Bool.or_comm]
    rfl

/- Only a launch that lands has no error. -/
theorem launch_none {w₁ : World} {v : VM} {reply : Reply} (h : w.launch v reply = (w₁, none)) : reply = .ok := by
  have herr : reply.err = none := congrArg Prod.snd h
  cases reply with
  | ok => rfl
  | failed e | failedAfter e | nameTaken => cases herr

/- The address a lease adds is no part of what the runtime asks for. -/
theorem Fleet.Expects.seeded {v : VM} (hf : f.Expects v) (w : World) (reply : Reply) :
    f.Expects (w.seedLeaseIP v reply) := by
  unfold World.seedLeaseIP
  split
  · exact hf
  · exact ⟨hf.free, hf.unmade, hf.addr⟩

theorem Fleet.Expects.onTables {v : VM} {t : Tables} (hf : f.Expects v) (ha : t.nextAddr = f.tables.nextAddr) :
    Fleet.Expects { f with tables := t } v :=
  ⟨hf.free, hf.unmade, hf.addr.trans ha.symm⟩

theorem detachIncarnation_nextAddr (t : Tables) (key : Key) (uid : UID) (v : Option VM) :
    (t.detachIncarnation key uid v).1.nextAddr = t.nextAddr := by
  have horphan : ∀ u : Tables, (u.indexDetached key v).nextAddr = u.nextAddr := by
    intro u
    cases v with
    | none => rfl
    | some v =>
      unfold indexDetached indexOrphanByNameLocked
      repeat' split
      all_goals rfl
  unfold Tables.detachIncarnation
  split
  · rfl
  · dsimp only
    rw [horphan, untrackIncarnationLocked]
    split
    · exact untrackLocked_nextAddr _ _
    · rfl

/- A launch ends the wait for it. -/
theorem FleetCall.launched_ends {failed pc : FleetPC} {f' : Fleet} {ans : FleetAnswer}
    (hfailed : failed.launches = false) (h : x.launched f ans failed = some (f', pc)) : pc.launches = false := by
  unfold FleetCall.launched at h
  split at h
  · cases h
    exact hfailed
  · split at h
    · cases h
    · obtain ⟨g, -, h⟩ := Option.map_eq_some_iff.mp h
      split at h
      · cases h
        exact hfailed
      · cases h
        rfl

/- The next record stays the next until the VM is launched. -/
theorem expects_step {v : VM} {s s' : Fleet × FleetCall} {ans : FleetAnswer}
    (hinv : s.2.pc.launches = true → s.1.Expects v) (hstep : fleetCall.step s ans = some s')
    (hpc : s'.2.pc.launches = true) : s'.1.Expects v := by
  obtain ⟨f, x⟩ := s
  obtain ⟨⟨f₁, pc₁⟩, hcall, rfl⟩ := Option.map_eq_some_iff.mp hstep
  clear hstep
  dsimp only at hinv hcall hpc ⊢
  unfold FleetCall.step at hcall
  generalize x.pc = pc at hinv hcall
  cases pc with
  | resuming | hasWakeSource | inspect existing =>
    cases hcall
    exact hinv rfl
  | look | adopt =>
    dsimp only at hcall
    split at hcall
    all_goals
      cases hcall
      exact hinv rfl
  | replace uid v =>
    cases hcall
    exact (hinv rfl).onTables (detachIncarnation_nextAddr _ _ _ _)
  | update v =>
    cases hcall
    exact (hinv rfl).onTables (Fleet.moves_trackPodUnlessDeleting f x.pod).nextAddr
  | track =>
    dsimp only at hcall
    split at hcall
    · cases hcall
      exact hinv rfl
    · cases hcall
      exact (hinv rfl).onTables (Fleet.moves_trackPodUnlessDeleting f x.pod).nextAddr
  | drop existing =>
    cases hcall
    refine (hinv rfl).onTables ?_
    unfold Tables.dropStaleIndex
    dsimp only
    split <;> rfl
  | wake =>
    dsimp only at hcall
    split at hcall
    · cases hcall
      exact hinv rfl
    · rw [FleetCall.launched_ends rfl hcall] at hpc
      cases hpc
  | bringUp =>
    rw [FleetCall.launched_ends rfl hcall] at hpc
    cases hpc
  -- the launch is over, or the call is `DeletePod`
  | failCreate | detach v | forget | finish =>
    cases hcall
    cases hpc
  | bind v | stamp v | patch v | claim | backoff | save v | remove v =>
    cases hcall
    split at hpc
    all_goals cases hpc
  | vmForPod =>
    dsimp only at hcall
    split at hcall
    all_goals
      cases hcall
      cases hpc
  | ended v | done => cases hcall

/- From a point of rest the call goes to another, and the indexes stay. -/
theorem rests_step (hrest : b.pc.rests = true) (hstep : b.step w a = some (w', pc', new)) :
    pc'.rests = true ∧ w'.runtime = w.runtime ∧ Alike w'.tables w.tables := by
  unfold Bring.step at hstep
  cases hpc : b.pc with
  | republish =>
    simp only [hpc] at hstep
    cases hstep
    exact ⟨rfl, rfl, w.tables.alike_republish b.pod⟩
  | retryLater prev =>
    simp only [hpc] at hstep
    cases hstep
    exact ⟨rfl, rfl, w.tables.alike_retryOpLater b.pod prev a.now⟩
  | wakeFail msg prev =>
    simp only [hpc] at hstep
    cases hstep
    exact ⟨rfl, rfl, w.tables.alike_lifecycle b.pod .failed msg⟩
  | liftRead site =>
    cases site with
    | cleared => rw [hpc] at hrest; cases hrest
    | update prev =>
      simp only [hpc] at hstep
      split at hstep
      · cases hstep
        exact ⟨rfl, rfl, w.tables.alike_refl⟩
      · split at hstep
        · cases hstep
          exact ⟨rfl, rfl, w.tables.alike_refl⟩
        · cases hstep
          refine ⟨?_, rfl, w.tables.alike_refl⟩
          split <;> rfl
  | liftInspect v site =>
    cases site with
    | cleared => rw [hpc] at hrest; cases hrest
    | update prev =>
      simp only [hpc] at hstep
      cases hstep
      refine ⟨?_, rfl, w.tables.alike_refl⟩
      repeat' split
      all_goals rfl
  | lift site =>
    cases site with
    | cleared => rw [hpc] at hrest; cases hrest
    | update prev =>
      have halike := w.tables.alike_lift b.pod
      cases hlift : w.tables.liftHibernateFailureLocked b.pod with
      | mk t lifted =>
        rw [hlift] at halike
        simp only [hpc, hlift] at hstep
        cases hstep
        refine ⟨?_, rfl, halike⟩
        split <;> rfl
  | markReady resumed =>
    cases resumed with
    | true => rw [hpc] at hrest; cases hrest
    | false =>
      simp only [hpc] at hstep
      cases hstep
      exact ⟨rfl, rfl, w.tables.alike_lifecycle b.pod .ready ""⟩
  | done =>
    simp only [hpc] at hstep
    cases hstep
  | _ =>
    rw [hpc] at hrest
    cases hrest

/- The call moves on and launches nothing. -/
theorem Bring.Shows.moves (hs : b.Shows w x f) {w₁ : World} {f₁ : Fleet} {pc₁ : BringPC} {xpc₁ : FleetPC}
    (hold : b.pc.seeds = false) (hseeds : pc₁.seeds = false) (hruntime : w₁.runtime = w.runtime)
    (hlive : f₁.live = f.live) (ht : Alike w₁.tables f₁.tables) (hpoint : pc₁.Indexes b.pod b.launched xpc₁) :
    Bring.Shows { b with pc := pc₁ } w₁ { x with pc := xpc₁ } f₁ := by
  refine ⟨hs.pod, hpoint, ht, fun id => ?_⟩
  rw [hruntime, hlive, hs.live, hold, hseeds]

/- Both calls enter a section of the tables that says whether to go on. -/
theorem section_run (hs : b.Shows w x f) {r r' : Tables × Bool} {yes no : BringPC} {xyes xno : FleetPC}
    (ans : FleetAnswer) (hstep : (match r with
      | (t, ok) => some ({ w with tables := t }, if ok then yes else no, ([] : List PodThread))) =
        some (w', pc', new))
    (hold : b.pc.seeds = false) (hr : Alike r.1 r'.1 ∧ r.2 = r'.2)
    (hx : x.step f ans = some ({ f with tables := r'.1 }, if r'.2 then xyes else xno))
    (hyes : yes.Indexes b.pod b.launched xyes) (hno : no.Indexes b.pod b.launched xno)
    (hseeds : yes.seeds = false ∧ no.seeds = false) : FleetRun b f x w' pc' := by
  obtain ⟨t, ok⟩ := r
  obtain ⟨t', ok'⟩ := r'
  obtain ⟨halike, rfl⟩ := hr
  cases hstep
  refine fleetCall_step ans hx ?_
  cases ok with
  | true => exact hs.moves hold hseeds.1 rfl rfl halike hyes
  | false => exact hs.moves hold hseeds.2 rfl rfl halike hno

theorem look_run (hs : b.Shows w x f) (hpc : b.pc = .look) (hx : x.pc = .look)
    (hstep : b.step w a = some (w', pc', new)) : FleetRun b f x w' pc' := by
  have hold : b.pc.seeds = false := by rw [hpc]; rfl
  have howner := hs.tables.owner b.pod.key
  unfold Bring.step at hstep
  simp only [hpc, hs.tables.vmsByPod] at hstep
  cases hstep
  cases hf : f.tables.pods.get b.pod.key with
  | none =>
    rw [hf, Option.map_none, Option.map_eq_none_iff] at howner
    rw [howner]
    dsimp only
    split
    next hcond =>
      exact fleetCall_step ⟨.ok, b.launched, false⟩ (by simp only [FleetCall.step, hx, hs.pod, hf, hcond, if_true])
        (hs.moves hold rfl rfl rfl hs.tables .hasWakeSource)
    next hcond =>
      exact fleetCall_step ⟨.ok, b.launched, false⟩ (by simp only [FleetCall.step, hx, hs.pod, hf, hcond]; rfl)
        (hs.moves hold rfl rfl rfl hs.tables (.update _))
  | some tracked =>
    rw [hf, Option.map_some, Option.map_eq_some_iff] at howner
    obtain ⟨p, hp, huid⟩ := howner
    rw [hp]
    dsimp only
    rw [huid]
    by_cases hu : tracked.uid = b.pod.uid
    · rw [if_neg (by simp [hu])]
      exact fleetCall_step ⟨.ok, b.launched, false⟩ (by simp only [FleetCall.step, hx, hs.pod, hf, hu, if_true])
        (hs.moves hold rfl rfl rfl hs.tables (.update _))
    · rw [if_pos (by simp [hu])]
      exact fleetCall_step ⟨.ok, b.launched, false⟩ (by simp only [FleetCall.step, hx, hs.pod, hf, hu, if_false])
        (hs.moves hold rfl rfl rfl hs.tables (.replace _ _))

/- What `applyUpdate` does for a VM that is there binds none. -/
theorem apply_run {v : Option VM} {prev : ℕ} (hb : b.ForName) (hname : b.pod.spec.vmName ≠ "")
    (hs : b.Shows w x f) (hpc : b.pc = .apply v prev) (hx : x.pc = BringPC.applies b.pod v)
    (hstep : b.step w a = some (w', pc', new)) : FleetRun b f x w' pc' := by
  obtain ⟨xpod, xpc⟩ := x
  dsimp only at hx
  subst hx
  have hold : b.pc.seeds = false := by rw [hpc]; rfl
  unfold Bring.step at hstep
  simp only [hpc, hb.managed, Bool.not_true, Bool.false_eq_true, if_false] at hstep
  refine Machine.reaches_here ?_
  cases v with
  | some v =>
    simp only at hstep
    split at hstep
    · cases hstep
      exact hs.moves hold rfl rfl rfl hs.tables (.rest .done rfl)
    · cases hstep
      exact hs.moves hold rfl rfl rfl hs.tables (.rest (.liftRead (.update prev)) rfl)
  | none =>
    cases hstep
    cases hhib : b.pod.hibernate with
    | true =>
      simp only [BringPC.applies, hhib, if_true]
      exact hs.moves hold rfl rfl rfl hs.tables (.rest .republish rfl)
    | false =>
      simp only [BringPC.applies, hhib, Bool.false_eq_true, if_false, beq_iff_eq, hname]
      exact hs.moves hold rfl rfl rfl hs.tables (.wakeCreating prev)

/- The launch fails in both, whether or not it leaves a VM behind. -/
theorem launch_fails_run (hb : b.ForName) (hs : b.Shows w x f) (hnew : f.Expects b.launched)
    (hold : b.pc.seeds = false) {failed : FleetPC} (hx : ∀ ans, x.step f ans = x.launched f ans failed)
    {w₁ : World} {e : String} (heq : w.launch b.launched a.reply = (w₁, some e)) {pc₁ : BringPC}
    (hpoint : pc₁.Indexes b.pod b.launched failed) (hseeds : pc₁.seeds = false) : FleetRun b f x w₁ pc₁ := by
  have hvm : b.launched.name = x.pod.spec.vmName := by rw [hs.pod, hb.name]
  have htables := Bring.launch_tables w b.launched a.reply
  have hhas := launch_has w b.launched a.reply
  rw [heq] at htables hhas
  obtain ⟨f', hlaunch, hsame, hhas'⟩ := FleetCall.launched_fails failed hnew hvm (congrArg Prod.snd heq)
  refine fleetCall_step _ ((hx _).trans hlaunch) ⟨hs.pod, hpoint, ?_, fun id => ?_⟩
  · rw [htables, hsame]
    exact hs.tables
  · rw [hhas, hs.live, hhas', hold, hseeds, Bool.false_and, Bool.or_false, Bool.or_false]

theorem wake_run {prev : ℕ} (hb : b.ForName) (hname : b.pod.spec.vmName ≠ "") (hs : b.Shows w x f)
    (hnew : f.Expects b.launched) (hpc : b.pc = .wakeClone prev) (hx : x.pc = .wake)
    (hstep : b.step w a = some (w', pc', new)) : FleetRun b f x w' pc' := by
  have hold : b.pc.seeds = false := by rw [hpc]; rfl
  have hwake : ∀ ans, x.step f ans = x.launched f ans .done := by
    intro ans
    simp only [FleetCall.step, hx, hs.pod, if_neg hname]
  unfold Bring.step at hstep
  simp only [hpc] at hstep
  split at hstep
  next w₁ heq =>
    have htables := Bring.launch_tables w b.launched a.reply
    have hhas := launch_has w b.launched a.reply
    rw [heq, launch_none heq] at hhas
    rw [heq] at htables
    cases hstep
    obtain ⟨f', hlaunch, halike, hhas'⟩ := FleetCall.launched_binds .done hnew (hb.name.trans (by rw [hs.pod]))
    refine fleetCall_step _ ((hwake _).trans hlaunch) ⟨hs.pod, .bind b.launched .wake, ?_, fun id => ?_⟩
    · rw [htables]
      exact hs.tables.trans halike
    · rw [hhas, hs.live, hhas', hold, Bool.false_and, Bool.or_false]
      exact (Bool.or_false _).symm
  next w₁ e heq =>
    cases hstep
    exact launch_fails_run hb hs hnew hold hwake heq (.rest (.wakeFail e prev) rfl) rfl

theorem inspect_run {v : VM} {attempt : ℕ} (hs : b.Shows w x f) (hpc : b.pc = .adoptInspect v attempt)
    (hx : x.pc = .inspect v) (hstep : b.step w a = some (w', pc', new)) : FleetRun b f x w' pc' := by
  have hold : b.pc.seeds = false := by rw [hpc]; rfl
  unfold Bring.step World.inspect at hstep
  cases herr : a.reply.err with
  | some e =>
    simp only [hpc, herr] at hstep
    cases hstep
    split
    · obtain ⟨xpod, xpc⟩ := x
      obtain rfl : xpc = .inspect v := hx
      exact Machine.reaches_here (hs.moves hold rfl rfl rfl hs.tables (.inspect v (attempt + 1)))
    · exact fleetCall_step ⟨a.reply, b.launched, false⟩
        (by simp only [FleetCall.step, hx, herr, Option.isSome_some, if_true])
        (hs.moves hold rfl rfl rfl hs.tables (.fail _))
  | none =>
    -- both ask the runtime for the VM
    have hfleet : x.step f ⟨a.reply, b.launched, false⟩ =
        some (f, if (w.runtime.get v.id).isSome then .bind v else .drop v) := by
      have hsame : w.runtime.has v.id = f.live.has v.id := by
        rw [hs.live, hold]
        exact Bool.or_false _
      rw [← GoMap.has, hsame]
      simp only [FleetCall.step, hx, herr, Option.isSome_none, Bool.false_eq_true, if_false]
    simp only [hpc, herr] at hstep
    cases hstep
    cases hget : w.runtime.get v.id with
    | none =>
      rw [hget] at hfleet
      exact fleetCall_step _ hfleet (hs.moves hold rfl rfl rfl hs.tables (.drop v))
    | some live =>
      rw [hget] at hfleet
      exact fleetCall_step _ hfleet (hs.moves hold rfl rfl rfl hs.tables (.bind v .adopt))

/- The VM that `bringUpVM` has launched waits for its lease, and the fleet has not seen it yet. -/
theorem bringUp_run {restoring : Bool} (hb : b.ForName) (hs : b.Shows w x f) (hnew : f.Expects b.launched)
    (hpc : b.pc = .bringUp restoring) (hx : x.pc = .bringUp) (hstep : b.step w a = some (w', pc', new)) :
    FleetRun b f x w' pc' := by
  have hold : b.pc.seeds = false := by rw [hpc]; rfl
  have hbring : ∀ ans, x.step f ans = x.launched f ans .failCreate := by
    intro ans
    simp only [FleetCall.step, hx]
  unfold Bring.step at hstep
  simp only [hpc, hb.managed, Bool.not_true, Bool.false_eq_true, if_false] at hstep
  split at hstep
  next w₁ heq =>
    have htables := Bring.launch_tables w b.launched a.reply
    have hhas := launch_has w b.launched a.reply
    rw [heq, launch_none heq] at hhas
    rw [heq] at htables
    cases hstep
    obtain ⟨xpod, xpc⟩ := x
    obtain rfl : xpc = .bringUp := hx
    refine Machine.reaches_here ⟨hs.pod, .seed restoring, ?_, fun id => ?_⟩
    · rw [htables]
      exact hs.tables
    · rw [hhas, hs.live, hold, Bool.false_and, Bool.or_false]
      rfl
  next w₁ e heq =>
    cases hstep
    exact launch_fails_run hb hs hnew hold hbring heq (.fail e) rfl

/-- A step of `UpdatePod` or `CreatePod` up to the end of a bind is a run of the call of the fleet. -/
theorem call_step_run (hb : b.ForName) (hname : b.pod.spec.vmName ≠ "") (hs : b.Shows w x f)
    (hnew : x.pc.launches = true → f.Expects b.launched) (hend : b.pc.hasBound = false)
    (hstep : b.step w a = some (w', pc', new)) : FleetRun b f x w' pc' := by
  obtain ⟨xpod, xpc⟩ := x
  obtain rfl : xpod = b.pod := hs.pod
  have ht := hs.tables
  have hpoint := hs.point
  dsimp only at hpoint hnew
  have hwhole := hstep
  unfold Bring.step at hstep
  generalize hpc : b.pc = pc at hpoint hstep hend
  have hold : pc.seeds = false → b.pc.seeds = false := fun h => hpc ▸ h
  cases hpoint with
  | resuming =>
    cases hstep
    rw [ht.resumedOps]
    cases hres : f.tables.resumedOps.has b.pod.key with
    | true =>
      exact fleetCall_step ⟨.ok, b.launched, false⟩ (by simp only [FleetCall.step, hres, if_true])
        (hs.moves (hold rfl) rfl rfl rfl ht (.rest .done rfl))
    | false =>
      exact fleetCall_step ⟨.ok, b.launched, false⟩
        (by simp only [FleetCall.step, hres, Bool.false_eq_true, if_false])
        (hs.moves (hold rfl) rfl rfl rfl ht .look)
  | look => exact look_run hs hpc rfl hwhole
  | hasWakeSource =>
    cases hstep
    cases herr : a.reply.err.isSome with
    | true =>
      exact fleetCall_step ⟨a.reply, b.launched, false⟩ (by simp only [FleetCall.step, herr, if_true])
        (hs.moves (hold rfl) rfl rfl rfl ht (.rest .done rfl))
    | false =>
      refine fleetCall_step ⟨a.reply, b.launched, w.hasWakeSource b.pod.spec.vmName⟩
        (by simp only [FleetCall.step, herr, Bool.false_eq_true, if_false]; rfl) ?_
      cases w.hasWakeSource b.pod.spec.vmName with
      | true => exact hs.moves (hold rfl) rfl rfl rfl ht (.update none)
      | false => exact hs.moves (hold rfl) rfl rfl rfl ht .track
  | replace uid v =>
    exact section_run hs ⟨.ok, b.launched, false⟩ hstep (hold rfl) (ht.detachIncarnation b.pod.key uid v) rfl
      .track (.rest .done rfl) ⟨rfl, rfl⟩
  | update v =>
    refine section_run hs ⟨.ok, b.launched, false⟩ hstep (hold rfl) (ht.trackPodUnlessDeleting b.pod none) ?_
      (.takeRetry v) (.rest .done rfl) ⟨rfl, rfl⟩
    simp only [FleetCall.step]
    cases (f.tables.trackPodUnlessDeleting b.pod none).2 <;> rfl
  | takeRetry v =>
    cases hstep
    exact Machine.reaches_here (hs.moves (hold rfl) rfl rfl rfl
      ⟨ht.owner, ht.vmsByPod, ht.vmsByName, ht.deleting, ht.resumedOps⟩ (.apply v _))
  | apply v prev => exact apply_run hb hname hs hpc rfl hwhole
  | wakeCreating prev =>
    cases hstep
    exact Machine.reaches_here (hs.moves (hold rfl) rfl rfl rfl
      ((w.tables.alike_lifecycle b.pod .creating "").trans ht) (.wakeClear prev))
  | wakeClear prev =>
    cases hstep
    exact Machine.reaches_here (hs.moves (hold rfl) rfl rfl rfl
      ((w.tables.alike_clearRuntimeAnnotations b.pod).trans ht) (.wakeSource prev))
  | wakeSource prev =>
    cases hstep
    cases a.reply.err with
    | none => exact Machine.reaches_here (hs.moves (hold rfl) rfl rfl rfl ht (.wakeClone prev))
    | some e =>
      -- the launch of the fleet covers the search for its source
      exact fleetCall_step ⟨.failed e, b.launched, false⟩ (by simp only [FleetCall.step, if_neg hname]; rfl)
        (hs.moves (hold rfl) rfl rfl rfl ht (.rest (.wakeFail e prev) rfl))
  | wakeClone prev => exact wake_run hb hname hs (hnew rfl) hpc rfl hwhole
  | rest pc hrest =>
    obtain ⟨hrest', hruntime, halike⟩ := rests_step (by rw [hpc]; exact hrest) hwhole
    have hseeds : ∀ pc : BringPC, pc.rests = true → pc.seeds = false := by
      intro pc hpc
      cases pc <;> first | rfl | cases hpc
    exact Machine.reaches_here (hs.moves (hold (hseeds _ hrest)) (hseeds _ hrest') hruntime rfl (halike.trans ht)
      (.rest pc' hrest'))
  | track =>
    exact section_run hs ⟨.ok, b.launched, false⟩ hstep (hold rfl) (ht.trackPodUnlessDeleting b.pod none)
      (by simp only [FleetCall.step, if_neg hname]; rfl) .markCreating (.rest .done rfl) ⟨rfl, rfl⟩
  | markCreating =>
    cases hstep
    exact Machine.reaches_here (hs.moves (hold rfl) rfl rfl rfl
      ((w.tables.alike_lifecycle b.pod .creating "").trans ht) .adopt)
  | adopt =>
    cases hstep
    rw [ht.vmsByName]
    cases hget : f.tables.vmsByName.get b.pod.spec.vmName with
    | none =>
      exact fleetCall_step ⟨.ok, b.launched, false⟩ (by simp only [FleetCall.step, hget])
        (hs.moves (hold rfl) rfl rfl rfl ht .evidence)
    | some v =>
      refine fleetCall_step ⟨.ok, b.launched, false⟩ (by simp only [FleetCall.step, hget]; rfl) ?_
      dsimp only
      cases isMacosVM v with
      | true => exact hs.moves (hold rfl) rfl rfl rfl ht .evidence
      | false => exact hs.moves (hold rfl) rfl rfl rfl ht (.inspect v 0)
  | inspect v attempt => exact inspect_run hs hpc rfl hwhole
  | drop v =>
    cases hstep
    exact fleetCall_step ⟨.ok, b.launched, false⟩ rfl
      (hs.moves (hold rfl) rfl rfl rfl (ht.dropStaleIndex b.pod.spec.vmName v) .evidence)
  | evidence =>
    have hfail : ∀ e, FleetRun b f ⟨b.pod, .bringUp⟩ w (.fail e) := fun e =>
      fleetCall_step ⟨.failed e, b.launched, false⟩ rfl (hs.moves (hold rfl) rfl rfl rfl ht (.fail e))
    have hgo : ∀ restoring, FleetRun b f ⟨b.pod, .bringUp⟩ w (.bringUp restoring) := fun restoring =>
      Machine.reaches_here (hs.moves (hold rfl) rfl rfl rfl ht (.bringUp restoring))
    cases hstep
    simp only [hb.managed, Bool.not_true, Bool.false_eq_true, if_false]
    repeat' split
    all_goals first | exact hfail _ | exact hgo _
  | bringUp restoring => exact bringUp_run hb hs (hnew rfl) hpc rfl hwhole
  | seed restoring =>
    cases hstep
    have hlive := hs.live
    rw [hpc] at hlive
    obtain ⟨f', hlaunch, halike, hhas⟩ := FleetCall.launched_binds (x := ⟨b.pod, .bringUp⟩) .failCreate
      ((hnew rfl).seeded w a.reply) ((seedLeaseIP_name w b.launched a.reply).1.trans hb.name)
    refine fleetCall_step _ hlaunch ⟨rfl, .bind _ (.launch restoring), ht.trans halike, fun id => ?_⟩
    rw [hlive, hhas, World.seedLeaseIP_id]
    exact (Bool.or_false _).symm
  | fail msg =>
    cases hstep
    exact Machine.reaches_here (hs.moves (hold rfl) rfl rfl rfl
      ((w.tables.alike_lifecycle b.pod .failed msg).trans ht) .failCreate)
  | failCreate =>
    cases hstep
    exact fleetCall_step ⟨.ok, b.launched, false⟩ rfl
      (hs.moves (hold rfl) rfl rfl rfl (ht.failCreate b.pod false) (.rest .done rfl))
  | bind v site =>
    exact section_run hs ⟨.ok, b.launched, false⟩ hstep (hold rfl) (ht.trackPodIncarnation b.pod v) rfl
      (.stamp v site) (.ended v) ⟨rfl, rfl⟩
  | stamp v site =>
    exact section_run hs ⟨.ok, b.launched, false⟩ hstep (hold rfl) (ht.applyVMRuntime b.pod v.id v.ip) rfl
      (.patch v site) (.detach v) ⟨rfl, rfl⟩
  | patch v site =>
    cases hstep
    refine fleetCall_step ⟨a.reply, b.launched, false⟩ rfl ?_
    split
    · exact hs.moves (hold rfl) rfl rfl rfl ht (.detach v)
    · refine hs.moves (hold rfl) ?_ rfl rfl ht (.bound v site)
      cases site <;> rfl
  | detach v =>
    cases hstep
    exact fleetCall_step ⟨.ok, b.launched, false⟩ rfl
      (hs.moves (hold rfl) rfl rfl rfl (ht.detachIncarnation b.pod.key b.pod.uid (some v)).1 (.ended v))
  | bound v site =>
    rw [hasBound_bound] at hend
    cases hend
  | ended v => cases hstep

/-- A run of `UpdatePod` or `CreatePod` up to the end of a bind is one of the call of the fleet. -/
theorem call_run {b' : Bring} {as : List Answer} (hb : b.ForName) (hname : b.pod.spec.vmName ≠ "")
    (hs : b.Shows w x f) (hnew : x.pc.launches = true → f.Expects b.launched)
    (hend : bringCall.Guarded (fun s _ => s.2.pc.hasBound = false) (w, b) as)
    (hrun : bringCall.exec (w, b) as = some (w', b')) : FleetRun b' f x w' b'.pc := by
  let R : World × Bring → Fleet × FleetCall → Prop := fun s c =>
    s.2.ForName ∧ s.2.pod.spec.vmName ≠ "" ∧ s.2.Shows s.1 c.2 c.1 ∧
      (c.2.pc.launches = true → c.1.Expects s.2.launched)
  have hsim : ∀ s ans s' c, R s c → s.2.pc.hasBound = false → bringCall.step s ans = some s' →
      fleetCall.Reaches c (R s') := by
    rintro ⟨w₁, b₁⟩ ans ⟨w₂, b₂⟩ c ⟨hb₁, hname₁, hs₁, hnew₁⟩ hend₁ hstep
    obtain ⟨pc₂, new, hbring, rfl⟩ := bringCall_step hstep
    obtain ⟨ds, c', hexec, hs₂⟩ := call_step_run hb₁ hname₁ hs₁ hnew₁ hend₁ hbring
    have hkeeps : ∀ s ans s', (s.2.pc.launches = true → s.1.Expects b₁.launched) → True →
        fleetCall.step s ans = some s' → s'.2.pc.launches = true → s'.1.Expects b₁.launched :=
      fun _ _ _ hinv _ hstep => expects_step hinv hstep
    exact ⟨ds, c', hexec, ⟨hb₁.managed, hb₁.name, hb₁.notMacos⟩, hname₁, hs₂,
      fleetCall.exec_invariant hkeeps hnew₁ (fleetCall.guarded_true _ _) hexec⟩
  have hstart : R (w, b) (f, x) := ⟨hb, hname, hs, hnew⟩
  exact (bringCall.exec_simulates hsim hstart hend hrun).mono fun _ hr => hr.2.2.1

end Call

/-! ### DeletePod -/

/-- `DeletePod` alone. -/
def deleteCall : Machine (World × Delete) Answer :=
  ⟨fun s a => (s.2.step s.1 a).map fun r => (r.1, { s.2 with pc := r.2 })⟩

/-- The points of `DeletePod`. What it does about snapshots is one, before the VM is removed and
after it. -/
inductive DeletePC.Indexes : DeletePC → FleetPC → Prop where
  | claim : Indexes .claim .claim
  | backoff : Indexes .backoff .backoff
  | look : Indexes .look .vmForPod
  | inspect (v : VM) : Indexes (.inspect v) (.save v)
  | save (v : VM) : Indexes (.save v) (.save v)
  | push (v : VM) : Indexes (.push v) (.save v)
  | remove (v : VM) : Indexes (.remove v) (.remove v)
  | releaseLeases (v : VM) : Indexes (.releaseLeases v) .forget
  | dropSnapshot (name : String) : Indexes (.dropSnapshot name) .forget
  | dropFork (name : String) : Indexes (.dropFork name) .forget
  | forget : Indexes .forget .forget
  | finish : Indexes .finish .finish
  | done : Indexes .done .done

/-- The call `d` in the world `w` as the fleet has it. -/
structure Delete.Shows (d : Delete) (w : World) (x : FleetCall) (f : Fleet) : Prop where
  pod : x.pod = d.pod
  point : d.pc.Indexes x.pc
  tables : Alike w.tables f.tables
  live : ∀ id, w.runtime.has id = f.live.has id

section Delete
variable {w w' : World} {a : Answer} {d : Delete} {pc' : DeletePC} {f : Fleet} {x : FleetCall}

/-- The run of the fleet's call that a step of `Delete` is. -/
def DeleteRun (d : Delete) (f : Fleet) (x : FleetCall) (w' : World) (pc' : DeletePC) : Prop :=
  fleetCall.Reaches (f, x) fun c => Delete.Shows { d with pc := pc' } w' c.2 c.1

theorem cleanup_indexes (d : Delete) (name : String) : (d.cleanup name).Indexes .forget := by
  unfold Delete.cleanup
  split
  · exact .forget
  · exact .dropSnapshot name

theorem Delete.Shows.moves (hs : d.Shows w x f) {w₁ : World} {f₁ : Fleet} {pc₁ : DeletePC} {xpc₁ : FleetPC}
    (hruntime : w₁.runtime = w.runtime) (hlive : f₁.live = f.live) (ht : Alike w₁.tables f₁.tables)
    (hpoint : pc₁.Indexes xpc₁) : Delete.Shows { d with pc := pc₁ } w₁ { x with pc := xpc₁ } f₁ := by
  refine ⟨hs.pod, hpoint, ht, fun id => ?_⟩
  rw [hruntime, hlive, hs.live]

theorem remove_has (hlive : ∀ id, w.runtime.has id = f.live.has id) (vmID : VMID) (r : Reply) (id : VMID) :
    (w.remove vmID r).1.runtime.has id = (if r.lands then f.live.remove vmID else f.live).has id := by
  unfold World.remove
  cases r.lands with
  | false => exact hlive id
  | true =>
    have hid := hlive id
    simp only [LiveVMs.has] at hid
    simp only [if_true, LiveVMs.has, LiveVMs.remove, GoMap.has_del, hid]

theorem snapshotRemove_runtime (w : World) (name : String) (r : Reply) :
    (w.snapshotRemove name r).runtime = w.runtime := by
  unfold World.snapshotRemove
  split <;> rfl

/-- A step of `DeletePod` is a run of the call of the fleet. -/
theorem delete_step_run (hm : d.pod.spec.managed = true) (hs : d.Shows w x f)
    (hstep : d.step w a = some (w', pc')) : DeleteRun d f x w' pc' := by
  obtain ⟨xpod, xpc⟩ := x
  obtain rfl : xpod = d.pod := hs.pod
  have ht := hs.tables
  have hpoint := hs.point
  dsimp only at hpoint
  unfold Delete.step at hstep
  generalize d.pc = pc at hpoint hstep
  cases hpoint with
  | claim =>
    obtain ⟨halike, hsame⟩ := ht.claimDeleting d.pod.key d.pod.uid
    cases hclaim : w.tables.claimDeleting d.pod.key d.pod.uid with
    | mk t claim =>
      rw [hclaim] at halike hsame
      simp only [hclaim] at hstep
      cases claim with
      | claimed =>
        cases hstep
        refine fleetCall_step ⟨.ok, unmanagedVM d.pod, false⟩ rfl ?_
        rw [← hsame]
        exact hs.moves rfl rfl halike .backoff
      | inFlight | superseded =>
        cases hstep
        refine fleetCall_step ⟨.ok, unmanagedVM d.pod, false⟩ rfl ?_
        rw [← hsame]
        exact hs.moves rfl rfl halike .done
  | backoff =>
    cases hstep
    rw [ht.resumedOps]
    refine fleetCall_step ⟨.ok, unmanagedVM d.pod, false⟩ rfl ?_
    cases f.tables.resumedOps.has d.pod.key with
    | true => exact hs.moves rfl rfl ht .finish
    | false => exact hs.moves rfl rfl ht .look
  | look =>
    simp only [hm, Bool.not_true, Bool.false_eq_true, if_false, ht.vmsByPod] at hstep
    cases hstep
    cases hget : f.tables.vmsByPod.get d.pod.key with
    | none =>
      exact fleetCall_step ⟨.ok, unmanagedVM d.pod, false⟩ (by simp only [FleetCall.step, hget])
        (hs.moves rfl rfl ht (cleanup_indexes d _))
    | some v =>
      have hlook : FleetCall.step ⟨d.pod, .vmForPod⟩ f ⟨.ok, v, false⟩ = some (f, .save v) := by
        simp only [FleetCall.step, hget]
      dsimp only
      split
      · exact fleetCall_step _ hlook (hs.moves rfl rfl ht (.inspect v))
      · -- no snapshot is owed
        have hsave : DeleteRun d f ⟨d.pod, .save v⟩ w (.remove v) :=
          fleetCall_step ⟨.ok, v, false⟩ rfl (hs.moves rfl rfl ht (.remove v))
        refine Machine.reaches_cons ⟨.ok, v, false⟩ ?_ hsave
        simp only [fleetCall, hlook, Option.map_some]
  | inspect v =>
    cases hstep
    unfold World.inspect
    cases herr : a.reply.err with
    | some e =>
      exact fleetCall_step ⟨a.reply, v, false⟩ (by simp only [FleetCall.step, herr, Option.isSome_some, if_true])
        (hs.moves rfl rfl ht .finish)
    | none =>
      have hremove : DeleteRun d f ⟨d.pod, .save v⟩ w (.remove v) :=
        fleetCall_step ⟨.ok, v, false⟩ rfl (hs.moves rfl rfl ht (.remove v))
      cases w.runtime.get v.id with
      | none => exact hremove
      | some current =>
        dsimp only
        split
        · exact Machine.reaches_here (hs.moves rfl rfl ht (.save v))
        · exact hremove
  | save v =>
    have htables := w.snapshotSave_tables v.id v.name a.reply
    have hruntime := w.snapshotSave_runtime v.id v.name a.reply
    cases hsave : w.snapshotSave v.name v.id a.reply with
    | mk w₁ err =>
      rw [hsave] at htables hruntime
      simp only [hsave] at hstep
      have halike : Alike w₁.tables f.tables := by
        rw [htables]
        exact ht
      cases err with
      | none =>
        cases hstep
        exact Machine.reaches_here (hs.moves hruntime rfl halike (.push v))
      | some e =>
        cases hstep
        exact fleetCall_step ⟨.failed e, v, false⟩ rfl (hs.moves hruntime rfl halike .finish)
  | push v =>
    cases hstep
    refine fleetCall_step ⟨a.reply, v, false⟩ rfl ?_
    cases a.reply.err.isSome with
    | true => exact hs.moves rfl rfl ht .finish
    | false => exact hs.moves rfl rfl ht (.remove v)
  | remove v =>
    have htables := w.remove_tables v.id a.reply
    have hhas := remove_has hs.live v.id a.reply
    cases hremove : w.remove v.id a.reply with
    | mk w₁ err =>
      have hfleet : FleetCall.step ⟨d.pod, .remove v⟩ f ⟨a.reply, v, false⟩ =
          some ({ f with live := if a.reply.lands then f.live.remove v.id else f.live },
            if err.isSome then .finish else .forget) := by
        rw [← show a.reply.err = err from congrArg Prod.snd hremove]
        rfl
      rw [hremove] at htables hhas
      simp only [hremove] at hstep
      have halike : Alike w₁.tables f.tables := by
        rw [htables]
        exact ht
      cases err with
      | none =>
        cases hstep
        exact fleetCall_step ⟨a.reply, v, false⟩ hfleet ⟨rfl, .releaseLeases v, halike, hhas⟩
      | some e =>
        cases hstep
        exact fleetCall_step ⟨a.reply, v, false⟩ hfleet ⟨rfl, .finish, halike, hhas⟩
  | releaseLeases v =>
    cases hstep
    exact Machine.reaches_here (hs.moves rfl rfl ht (cleanup_indexes d v.name))
  | dropSnapshot name =>
    cases hstep
    exact Machine.reaches_here (hs.moves (snapshotRemove_runtime w name a.reply) rfl
      (by rw [Delete.snapshotRemove_tables]; exact ht) (.dropFork name))
  | dropFork name =>
    cases hstep
    exact Machine.reaches_here (hs.moves (snapshotRemove_runtime w _ a.reply) rfl
      (by rw [Delete.snapshotRemove_tables]; exact ht) .forget)
  | forget =>
    cases hstep
    exact fleetCall_step ⟨.ok, unmanagedVM d.pod, false⟩ rfl (hs.moves rfl rfl (ht.untrackLocked d.pod.key) .finish)
  | finish =>
    cases hstep
    exact fleetCall_step ⟨.ok, unmanagedVM d.pod, false⟩ rfl (hs.moves rfl rfl (ht.finishDeleting d.pod.key) .done)
  | done => cases hstep

/-- A run of `DeletePod` is one of the call of the fleet. -/
theorem delete_run {d' : Delete} {as : List Answer} (hm : d.pod.spec.managed = true) (hs : d.Shows w x f)
    (hrun : deleteCall.exec (w, d) as = some (w', d')) : DeleteRun d' f x w' d'.pc := by
  let R : World × Delete → Fleet × FleetCall → Prop := fun s c =>
    s.2.pod.spec.managed = true ∧ s.2.Shows s.1 c.2 c.1
  have hsim : ∀ s ans s' c, R s c → True → deleteCall.step s ans = some s' → fleetCall.Reaches c (R s') := by
    rintro ⟨w₁, d₁⟩ ans s' c ⟨hm₁, hs₁⟩ - hstep
    obtain ⟨⟨w₂, pc₂⟩, hdelete, rfl⟩ := Option.map_eq_some_iff.mp hstep
    exact (delete_step_run hm₁ hs₁ hdelete).mono fun _ hs₂ => ⟨hm₁, hs₂⟩
  have hstart : R (w, d) (f, x) := ⟨hm, hs⟩
  exact (deleteCall.exec_simulates hsim hstart (deleteCall.guarded_true _ _) hrun).mono fun _ hr => hr.2

end Delete

end VkCocoon
