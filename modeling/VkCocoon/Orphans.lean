import VkCocoon.Intent

/-!
# What StartupReconcile removes

The VM list of the runtime is stripped of creating placeholders, the pods adopt from
what is left, and every VM no pod matched gets the orphan policy. Placeholders that
could not be settled at once are watched in the background, and get the policy there.
-/

namespace VkCocoon
open Lib Tables

inductive OrphanPolicy where
  | destroy
  | alert
  | keep
deriving DecidableEq, Repr

/-- `vm.StaleCreateOutcome` -/
inductive StaleCreateOutcome where
  | collected
  | busy
  | notCreating
  | notFound
  | other (text : String)
deriving DecidableEq, Repr

/-- An answer of `Runtime.Inspect`; `failed` is every error but `ErrVMNotFound`. -/
inductive Inspected where
  | notFound
  | failed
  | found (v : VM)
deriving DecidableEq, Repr

/-- One round of `watchBusyCreate`: the verb (`none` for an error), the inspect, and the pods
`vmNameWanted` lists (`none` for an error). -/
structure WatchTick where
  verb : Option StaleCreateOutcome
  inspect : Inspected
  lookup : Option (List Pod)
deriving DecidableEq, Repr

/-- The answer of `classifySettledCreate`, and the record it hands to `handleOrphan`. -/
structure SettledCreate where
  fresh : Option VM
  settled : Bool
  orphan : Option VM
deriving DecidableEq, Repr

def classifySettledCreate : Inspected → SettledCreate
  | .notFound => ⟨none, true, none⟩
  | .failed => ⟨none, false, none⟩
  | .found fresh =>
    match fresh.state with
    | .running => ⟨some fresh, true, none⟩
    -- `vm run` passes through created between the create-lock windows
    | .creating | .created => ⟨none, false, none⟩
    | .other _ => ⟨none, true, some fresh⟩

/-- What becomes of one record of the startup list. -/
structure StaleResult where
  keep : Option VM
  orphan : Option VM
  watch : Bool
deriving DecidableEq, Repr

/-- The closure of `reconcileStaleCreates` for one placeholder. -/
def reconcileStaleCreate (verb : Option StaleCreateOutcome) (inspect : Inspected) : StaleResult :=
  match verb with
  | none => ⟨none, none, true⟩
  | some .notCreating =>
    let c := classifySettledCreate inspect
    ⟨c.fresh, c.orphan, !c.settled⟩
  | some .busy => ⟨none, none, true⟩
  | some _ => ⟨none, none, false⟩

def vmNameWanted (pods : List Pod) (name : String) : Bool :=
  pods.any fun pod => !pod.deletionTimestamp && pod.spec.vmName == name

/-- A watched VM ends in the name index or with the orphan policy. -/
inductive WatchEnd where
  | indexed (v : VM)
  | orphan (v : VM)
deriving DecidableEq, Repr

def settleCommittedCreate (lookup : Option (List Pod)) (v : VM) : WatchEnd :=
  match lookup with
  | none => .indexed v
  | some pods => if vmNameWanted pods v.name then .indexed v else .orphan v

/-- The list ends where the budget does. -/
def watchBusyCreate : List WatchTick → Option WatchEnd
  | [] => none
  | tick :: rest =>
    if tick.verb == some .collected || tick.verb == some .notFound then none
    else
      let c := classifySettledCreate tick.inspect
      if c.settled then
        match c.orphan with
        | some v => some (.orphan v)
        | none => c.fresh.map (settleCommittedCreate tick.lookup)
      else watchBusyCreate rest

/-- The VMs removed so far beside the tables. -/
def handleOrphan (policy : OrphanPolicy) (st : Tables × List VM) (v : VM) : Tables × List VM :=
  match policy with
  | .destroy => (st.1, st.2 ++ [v])
  | .alert | .keep => (st.1.indexOrphanByNameLocked v, st.2)

/-- The lists a restart begins with and every answer it gets. -/
structure Relist where
  pods : List Pod
  keys_nodup : (pods.map Pod.key).Nodup
  vms : List VM
  ids_nodup : (vms.map VM.id).Nodup
  verb : VMID → Option StaleCreateOutcome
  inspect : VMID → Inspected
  ticks : VMID → List WatchTick
  inspect_same : ∀ v ∈ vms, ∀ fresh, inspect v.id = .found fresh → fresh.id = v.id ∧ fresh.name = v.name
  ticks_same : ∀ v ∈ vms, ∀ tick ∈ ticks v.id, ∀ fresh, tick.inspect = .found fresh →
    fresh.id = v.id ∧ fresh.name = v.name
  /-- the answers about a pod that are not read off the VM list -/
  answers : Key → Findings

/-- A restart on which the VMs of the list have names of their own. -/
structure Restart extends Relist where
  names_unique : ∀ v ∈ vms, ∀ w ∈ vms, v.name = w.name → v.name ≠ "" → v = w
  /-- no pod is replaced meanwhile -/
  not_taken : ∀ pod ∈ pods, (answers pod.key).nameTaken = false

namespace Relist
variable (r : Relist)

def settle (v : VM) : StaleResult :=
  if v.state == .creating then reconcileStaleCreate (r.verb v.id) (r.inspect v.id)
  else ⟨some v, none, false⟩

/-- `reconcileStaleCreates`: the records left to adopt from. -/
def kept : List VM := r.vms.filterMap fun v => (r.settle v).keep

def vmByID : GoMap VMID VM := r.kept.foldl (fun m v => m.set v.id v) .empty

def vmByName : GoMap String VM :=
  r.kept.foldl (fun m v => if v.name != "" then m.set v.name v else m) .empty

def findings (pod : Pod) : Findings :=
  { r.answers pod.key with
    vmByID := r.vmByID.get pod.vmid
    vmByName := r.vmByName.get pod.spec.vmName }

end Relist

/-- The ID the pod loop adds to `matched`. -/
def matchPod (t : Tables) (pod : Pod) (a : Findings) : Option VMID :=
  if isMacosSpec pod.spec then none
  else if !pod.spec.managed && pod.vmid != "" then some pod.vmid
  else if pod.vmid == "" then
    match (if pod.spec.vmName == "" then none else a.vmByName) with
    | none => none
    | some v => if (bindRuntime t pod v a.nameTaken).2 then some v.id else none
  else a.vmByID.map (·.id)

section Sweep
variable {S : Type} [DecidableEq S] (snapshot : LifecycleStatus → S) (r : Relist)

/-- The pod loop for one pod; macOS pods are left for later. -/
def matchStep (st : Tables × List VMID) (pod : Pod) : Tables × List VMID :=
  let a := r.findings pod
  if isMacosSpec pod.spec then st
  else (reconcilePod snapshot st.1 pod a, st.2 ++ (matchPod st.1 pod a).toList)

/-- Until the orphan sweep: the tables, what was removed, and the matched IDs. -/
def Relist.adopt (policy : OrphanPolicy) : (Tables × List VM) × List VMID :=
  let st := (r.vms.filterMap fun v => (r.settle v).orphan).foldl (handleOrphan policy) (.new, [])
  let loop := r.pods.foldl (matchStep snapshot r) (st.1, [])
  let t := (r.pods.filter fun pod => isMacosSpec pod.spec).foldl
    (fun t pod => reconcileMacosPod snapshot t pod (r.findings pod)) loop.1
  ((t, st.2), loop.2)

/-- The orphan sweep included. -/
def Relist.sweep (policy : OrphanPolicy) : Tables × List VM :=
  let (st, matched) := r.adopt snapshot policy
  (r.kept.filter fun v => v.id ∉ matched).foldl (handleOrphan policy) st

/-- `StartupReconcile` -/
def Relist.reconcile (policy : OrphanPolicy) : Tables × List VM :=
  let st := r.sweep snapshot policy
  (dispatchOwedWork st.1, st.2)

/-- What the watchers of the placeholders do in the background. -/
def Relist.watch (policy : OrphanPolicy) (st : Tables × List VM) : Tables × List VM :=
  (r.vms.filter fun v => (r.settle v).watch).foldl (fun st v =>
    match watchBusyCreate (r.ticks v.id) with
    | none => st
    | some (.indexed fresh) => (st.1.indexOrphanByNameLocked fresh, st.2)
    | some (.orphan fresh) => handleOrphan policy st fresh) st

/-- Every VM a restart removes under the destroy policy. -/
def Relist.removed : List VM := (r.watch .destroy (r.reconcile snapshot .destroy)).2

end Sweep

/- An incarnation whose key is free and whose name is its own is bound. -/
theorem bindRuntime_free {t : Tables} {pod : Pod} (v : VM) (hdel : t.deleting.has pod.key = false)
    (hfree : t.pods.get pod.key = none) : (bindRuntime t pod v false).2 = true := by
  obtain ⟨l, hl⟩ := t.trackPodLocked_pods pod (some v)
  have htrack : t.trackPodIncarnation pod v = (t.trackPodLocked pod (some v), true) := by
    simp [trackPodIncarnation, deletingLocked, supersededLocked, hdel, hfree]
  have hown : (t.trackPodLocked pod (some v)).supersededLocked pod.key pod.uid = false := by
    simp [supersededLocked, hl]
  have happly : ((t.trackPodLocked pod (some v)).applyVMRuntime pod v.id v.ip).2 = true := by
    simp [applyVMRuntime, hown]
  unfold bindRuntime
  rw [htrack]
  dsimp only
  split
  next h => simp [h] at happly
  next => rfl

/-! ### The records of the list -/

namespace Relist
variable (r : Relist)

theorem settle_keep_same {v w : VM} (hv : v ∈ r.vms) (h : (r.settle v).keep = some w) :
    w.id = v.id ∧ w.name = v.name := by
  unfold settle at h
  split at h
  · unfold reconcileStaleCreate at h
    split at h
    case h_2 =>
      cases hi : r.inspect v.id with
      | notFound => simp [classifySettledCreate, hi] at h
      | failed => simp [classifySettledCreate, hi] at h
      | found fresh =>
        have hsame := r.inspect_same v hv fresh hi
        rw [hi] at h
        cases hs : fresh.state <;> simp only [classifySettledCreate, hs] at h <;> cases h
        exact hsame
    all_goals cases h
  · cases h
    exact ⟨rfl, rfl⟩

theorem mem_kept {w : VM} : w ∈ r.kept ↔ ∃ v ∈ r.vms, (r.settle v).keep = some w :=
  List.mem_filterMap

theorem id_inj {v w : VM} (hv : v ∈ r.vms) (hw : w ∈ r.vms) (h : v.id = w.id) : v = w :=
  List.inj_on_of_nodup_map r.ids_nodup hv hw h

theorem kept_id_inj {v w : VM} (hv : v ∈ r.kept) (hw : w ∈ r.kept) (h : v.id = w.id) : v = w := by
  obtain ⟨v₀, hv₀, hkv⟩ := r.mem_kept.mp hv
  obtain ⟨w₀, hw₀, hkw⟩ := r.mem_kept.mp hw
  have hid : v₀.id = w₀.id := by
    rw [← (r.settle_keep_same hv₀ hkv).1, ← (r.settle_keep_same hw₀ hkw).1, h]
  rw [r.id_inj hv₀ hw₀ hid, hkw] at hkv
  exact (Option.some.inj hkv).symm

theorem vmByID_get (x : VMID) (v : VM) : r.vmByID.get x = some v ↔ v ∈ r.kept ∧ v.id = x :=
  GoMap.get_index VM.id r.kept (fun _ hv _ hw => r.kept_id_inj hv hw) x v

theorem vmByName_eq : r.vmByName = (r.kept.filter fun v => v.name != "").foldl
    (fun m v => m.set v.name v) .empty := by
  rw [List.foldl_filter]
  rfl

theorem mem_of_vmByName {name : String} {v : VM} (h : r.vmByName.get name = some v) :
    v ∈ r.kept ∧ v.name = name := by
  rw [vmByName_eq] at h
  obtain ⟨hm, hname⟩ := GoMap.mem_of_get_index VM.name _ _ _ h
  exact ⟨(List.mem_filter.mp hm).1, hname⟩

theorem settle_orphan_iff {v w : VM} : (r.settle v).orphan = some w ↔
    v.state = .creating ∧ r.verb v.id = some .notCreating ∧ r.inspect v.id = .found w ∧
      ∃ text, w.state = .other text := by
  unfold settle
  by_cases hc : v.state = .creating
  · rw [if_pos (by rw [hc]; rfl)]
    unfold reconcileStaleCreate
    split
    case h_2 hverb =>
      cases hi : r.inspect v.id with
      | notFound => simp [classifySettledCreate]
      | failed => simp [classifySettledCreate]
      | found fresh =>
        cases hs : fresh.state <;> simp only [classifySettledCreate, hs] <;> grind
    all_goals simp_all
  · rw [if_neg (by simpa using hc)]
    simp [hc]

end Relist

/-- The record a watcher settles on, and the pods it lists then. -/
def settlesOn : List WatchTick → Option (VM × Option (List Pod))
  | [] => none
  | tick :: rest =>
    if tick.verb == some .collected || tick.verb == some .notFound then none
    else
      match tick.inspect with
      | .notFound => none
      | .failed => settlesOn rest
      | .found fresh =>
        match fresh.state with
        | .creating | .created => settlesOn rest
        | .running | .other _ => some (fresh, tick.lookup)

theorem watchBusyCreate_orphan_iff {ticks : List WatchTick} {w : VM} :
    watchBusyCreate ticks = some (.orphan w) ↔ ∃ lookup, settlesOn ticks = some (w, lookup) ∧
      (w.state = .running → ∃ pods, lookup = some pods ∧ vmNameWanted pods w.name = false) := by
  induction ticks with
  | nil => simp [watchBusyCreate, settlesOn]
  | cons tick rest ih =>
    unfold watchBusyCreate settlesOn
    split
    · simp
    · cases hi : tick.inspect with
      | notFound => simp [classifySettledCreate]
      | failed => simpa [classifySettledCreate] using ih
      | found fresh =>
        cases hs : fresh.state with
        | creating => simpa [classifySettledCreate, hs] using ih
        | created => simpa [classifySettledCreate, hs] using ih
        | other text =>
          simp only [classifySettledCreate, hs]
          constructor
          · intro h
            cases h
            refine ⟨tick.lookup, rfl, fun hrun => ?_⟩
            rw [hs] at hrun
            cases hrun
          · rintro ⟨lookup, h, -⟩
            cases h
            rfl
        | running =>
          simp only [classifySettledCreate, hs]
          constructor
          · intro h
            have h := Option.some.inj h
            unfold settleCommittedCreate at h
            split at h
            · cases h
            next pods hl =>
              split at h
              next => cases h
              next hw =>
                cases h
                exact ⟨_, rfl, fun _ => ⟨pods, hl, Bool.not_eq_true _ ▸ hw⟩⟩
          · rintro ⟨lookup, h, hl⟩
            cases h
            obtain ⟨pods, hpods, hw⟩ := hl hs
            simp [settleCommittedCreate, hpods, hw]

namespace Relist
variable (r : Relist)

theorem settlesOn_same {v w : VM} (hv : v ∈ r.vms) {lookup : Option (List Pod)}
    (h : settlesOn (r.ticks v.id) = some (w, lookup)) : w.id = v.id ∧ w.name = v.name := by
  have hticks : ∀ ticks : List WatchTick, (∀ tick ∈ ticks, ∀ fresh, tick.inspect = .found fresh →
      fresh.id = v.id ∧ fresh.name = v.name) → settlesOn ticks = some (w, lookup) →
      w.id = v.id ∧ w.name = v.name := by
    intro ticks
    induction ticks with
    | nil => exact fun _ h => by cases h
    | cons tick rest ih =>
      intro hsame h
      have hrest := ih fun t ht => hsame t (List.mem_cons_of_mem _ ht)
      unfold settlesOn at h
      split at h
      · cases h
      · split at h
        · cases h
        · exact hrest h
        next fresh hi =>
          split at h
          case h_1 | h_2 => exact hrest h
          all_goals
            cases h
            exact hsame tick List.mem_cons_self w hi
  exact hticks _ (r.ticks_same v hv) h

/-! ### What the pods match -/

/-- What a pod matches, told from the lists alone. -/
def matchOf (pod : Pod) : Option VMID :=
  if isMacosSpec pod.spec then none
  else if !pod.spec.managed && pod.vmid != "" then some pod.vmid
  else if pod.vmid == "" then
    if pod.spec.vmName == "" then none else (r.vmByName.get pod.spec.vmName).map (·.id)
  else (r.vmByID.get pod.vmid).map (·.id)

/-- A pod on the list takes this VM: it annotates its ID, or it annotates none and has its name. -/
def Claimed (v : VM) : Prop :=
  ∃ pod ∈ r.pods, isMacosSpec pod.spec = false ∧
    ((pod.vmid ≠ "" ∧ pod.vmid = v.id) ∨
      (pod.vmid = "" ∧ pod.spec.vmName ≠ "" ∧ pod.spec.vmName = v.name))

end Relist

namespace Restart
variable (r : Restart)

theorem matchPod_free {t : Tables} {pod : Pod} (hpod : pod ∈ r.pods)
    (hdel : t.deleting.has pod.key = false) (hfree : t.pods.get pod.key = none) :
    matchPod t pod (r.findings pod) = r.matchOf pod := by
  have htaken : (r.findings pod).nameTaken = false := r.not_taken pod hpod
  unfold matchPod Relist.matchOf
  split
  · rfl
  split
  · rfl
  split
  · by_cases hname : (pod.spec.vmName == "") = true
    · rw [if_pos hname, if_pos hname]
    · rw [if_neg hname, if_neg hname, htaken]
      show (match r.vmByName.get pod.spec.vmName with
        | none => none
        | some v => if (bindRuntime t pod v false).2 then some v.id else none) = _
      cases r.vmByName.get pod.spec.vmName with
      | none => rfl
      | some v => exact if_pos (bindRuntime_free v hdel hfree)
  · rfl

/- The loop binds whatever it finds: no key comes twice, and nothing is being deleted yet. -/
theorem matched_eq {S : Type} [DecidableEq S] (snapshot : LifecycleStatus → S) (pods : List Pod)
    (hsub : ∀ pod ∈ pods, pod ∈ r.pods) (hnodup : (pods.map Pod.key).Nodup) (t : Tables)
    (hdel : t.deleting = .empty) (hfree : ∀ pod ∈ pods, t.pods.get pod.key = none)
    (matched : List VMID) :
    (pods.foldl (matchStep snapshot r.toRelist) (t, matched)).2 = matched ++ pods.filterMap r.matchOf := by
  induction pods generalizing t matched with
  | nil => rw [List.foldl_nil, List.filterMap_nil, List.append_nil]
  | cons pod pods ih =>
    rw [List.map_cons, List.nodup_cons] at hnodup
    have hpod : pod ∈ r.pods := hsub pod List.mem_cons_self
    have hsub' : ∀ q ∈ pods, q ∈ r.pods := fun q hq => hsub q (List.mem_cons_of_mem _ hq)
    have hrest : ∀ q ∈ pods, t.pods.get q.key = none := fun q hq => hfree q (List.mem_cons_of_mem _ hq)
    rw [List.foldl_cons]
    by_cases hmac : isMacosSpec pod.spec = true
    · have hstep : matchStep snapshot r.toRelist (t, matched) pod = (t, matched) := if_pos hmac
      have hnone : r.matchOf pod = none := if_pos hmac
      rw [hstep, ih hsub' hnodup.2 t hdel hrest, List.filterMap_cons_none hnone]
    · have hstep : matchStep snapshot r.toRelist (t, matched) pod =
          (reconcilePod snapshot t pod (r.findings pod),
            matched ++ (matchPod t pod (r.findings pod)).toList) := if_neg hmac
      have hmatch := r.matchPod_free hpod (by rw [hdel]; exact GoMap.has_empty _)
        (hfree pod List.mem_cons_self)
      have hadopts : Adopts snapshot pod (r.findings pod) t (reconcilePod snapshot t pod (r.findings pod)) :=
        reconcilePod_adopts t pod (r.findings pod)
      rw [hstep, ih hsub' hnodup.2 _ (hadopts.deleting_eq.trans hdel) ?_, hmatch]
      · cases h : r.matchOf pod with
        | none => simp [List.filterMap_cons_none h]
        | some x => simp [List.filterMap_cons_some h]
      · intro q hq
        have hne : q.key ≠ pod.key := fun e => hnodup.1 (List.mem_map.mpr ⟨q, hq, e⟩)
        exact (hadopts.builds snapshot (hfree pod List.mem_cons_self)).untracked snapshot hne (hrest q hq)

theorem kept_name_inj {v w : VM} (hv : v ∈ r.kept) (hw : w ∈ r.kept) (h : v.name = w.name)
    (hne : v.name ≠ "") : v = w := by
  obtain ⟨v₀, hv₀, hkv⟩ := r.mem_kept.mp hv
  obtain ⟨w₀, hw₀, hkw⟩ := r.mem_kept.mp hw
  have hname : v₀.name = w₀.name := by
    rw [← (r.settle_keep_same hv₀ hkv).2, ← (r.settle_keep_same hw₀ hkw).2, h]
  have hne₀ : v₀.name ≠ "" := by rwa [← (r.settle_keep_same hv₀ hkv).2]
  rw [r.names_unique v₀ hv₀ w₀ hw₀ hname hne₀, hkw] at hkv
  exact (Option.some.inj hkv).symm

theorem vmByName_get (name : String) (v : VM) :
    r.vmByName.get name = some v ↔ v ∈ r.kept ∧ v.name ≠ "" ∧ v.name = name := by
  rw [Relist.vmByName_eq, GoMap.get_index VM.name]
  · simp only [List.mem_filter, bne_iff_ne, ne_eq, and_assoc]
  · intro v hv w hw h
    rw [List.mem_filter, bne_iff_ne] at hv hw
    exact r.kept_name_inj hv.1 hw.1 h hv.2

theorem matchOf_claims {pod : Pod} {w : VM} (hw : w ∈ r.kept) :
    r.matchOf pod = some w.id ↔ isMacosSpec pod.spec = false ∧
      ((pod.vmid ≠ "" ∧ pod.vmid = w.id) ∨
        (pod.vmid = "" ∧ pod.spec.vmName ≠ "" ∧ pod.spec.vmName = w.name)) := by
  have hbyID : ∀ x, (r.vmByID.get x).map (·.id) = some w.id ↔ x = w.id := by
    intro x
    rw [Option.map_eq_some_iff]
    constructor
    · rintro ⟨u, hu, hid⟩
      exact ((r.vmByID_get x u).mp hu).2.symm.trans hid
    · rintro rfl
      exact ⟨w, (r.vmByID_get _ w).mpr ⟨hw, rfl⟩, rfl⟩
  have hbyName : ∀ x, x ≠ "" → ((r.vmByName.get x).map (·.id) = some w.id ↔ x = w.name) := by
    intro x hx
    rw [Option.map_eq_some_iff]
    constructor
    · rintro ⟨u, hu, hid⟩
      obtain ⟨hmem, -, hname⟩ := (r.vmByName_get x u).mp hu
      rw [← hname, r.kept_id_inj hmem hw hid]
    · rintro rfl
      exact ⟨w, (r.vmByName_get _ w).mpr ⟨hw, hx, rfl⟩, rfl⟩
  unfold Relist.matchOf
  cases hmac : isMacosSpec pod.spec with
  | true => simp
  | false =>
    by_cases hid : pod.vmid = ""
    · by_cases hname : pod.spec.vmName = ""
      · simp [hid, hname]
      · simp [hid, hname, hbyName pod.spec.vmName hname]
    · cases hman : pod.spec.managed with
      | true => simp [hid, hbyID pod.vmid]
      | false => simp [hid]

theorem mem_matched_iff {w : VM} (hw : w ∈ r.kept) :
    w.id ∈ r.pods.filterMap r.matchOf ↔ r.Claimed w := by
  rw [List.mem_filterMap]
  exact exists_congr fun pod => and_congr_right fun _ => r.matchOf_claims hw

end Restart

/-! ### What is removed -/

namespace Relist
variable (r : Relist)

theorem foldl_handleOrphan_destroy (vs : List VM) (st : Tables × List VM) :
    vs.foldl (handleOrphan .destroy) st = (st.1, st.2 ++ vs) := by
  induction vs generalizing st with
  | nil => rw [List.foldl_nil, List.append_nil]
  | cons v vs ih => rw [List.foldl_cons, ih, handleOrphan, List.append_assoc, List.singleton_append]

/-- The VM a watcher hands to the orphan policy. -/
def watchOrphan (v : VM) : Option VM :=
  match watchBusyCreate (r.ticks v.id) with
  | some (.orphan fresh) => some fresh
  | _ => none

theorem watch_destroy (vs : List VM) (st : Tables × List VM) :
    (vs.foldl (fun st v =>
      match watchBusyCreate (r.ticks v.id) with
      | none => st
      | some (.indexed fresh) => (st.1.indexOrphanByNameLocked fresh, st.2)
      | some (.orphan fresh) => handleOrphan .destroy st fresh) st).2 =
    st.2 ++ vs.filterMap r.watchOrphan := by
  induction vs generalizing st with
  | nil => rw [List.foldl_nil, List.filterMap_nil, List.append_nil]
  | cons v vs ih =>
    rw [List.foldl_cons, ih]
    cases h : watchBusyCreate (r.ticks v.id) with
    | none =>
      have hw : r.watchOrphan v = none := by simp only [watchOrphan, h]
      rw [List.filterMap_cons_none hw]
    | some e =>
      cases e with
      | indexed fresh =>
        have hw : r.watchOrphan v = none := by simp only [watchOrphan, h]
        rw [List.filterMap_cons_none hw]
      | orphan fresh =>
        have hw : r.watchOrphan v = some fresh := by simp only [watchOrphan, h]
        rw [List.filterMap_cons_some hw]
        show st.2 ++ [fresh] ++ vs.filterMap r.watchOrphan = _
        rw [List.append_assoc, List.singleton_append]

end Relist

namespace Restart
variable (r : Restart)

theorem removed_eq {S : Type} [DecidableEq S] (snapshot : LifecycleStatus → S) :
    r.removed snapshot = r.vms.filterMap (fun v => (r.settle v).orphan) ++
      r.kept.filter (fun v => v.id ∉ r.pods.filterMap r.matchOf) ++
      (r.vms.filter fun v => (r.settle v).watch).filterMap r.watchOrphan := by
  have hmatched := r.matched_eq snapshot r.pods (fun _ h => h) r.keys_nodup .new rfl
    (fun _ _ => GoMap.get_empty _) []
  rw [List.nil_append] at hmatched
  unfold Relist.removed Relist.watch
  rw [Relist.watch_destroy]
  simp only [Relist.reconcile, Relist.sweep, Relist.adopt, Relist.foldl_handleOrphan_destroy, hmatched,
    List.nil_append]

theorem mem_removed {S : Type} [DecidableEq S] (snapshot : LifecycleStatus → S) {w : VM} :
    w ∈ r.removed snapshot ↔
      (∃ v ∈ r.vms, (r.settle v).orphan = some w) ∨ (w ∈ r.kept ∧ ¬r.Claimed w) ∨
      ∃ v ∈ r.vms, (r.settle v).watch = true ∧
        watchBusyCreate (r.ticks v.id) = some (.orphan w) := by
  have hwatch : ∀ v, r.watchOrphan v = some w ↔
      watchBusyCreate (r.ticks v.id) = some (.orphan w) := by
    intro v
    unfold Relist.watchOrphan
    split
    next h => simp [h]
    next h =>
      constructor
      · intro h'
        cases h'
      · intro h'
        exact absurd h' (h w)
  have hkept : w ∈ r.kept.filter (fun v => v.id ∉ r.pods.filterMap r.matchOf) ↔
      w ∈ r.kept ∧ ¬r.Claimed w := by
    rw [List.mem_filter]
    refine and_congr_right fun hw => ?_
    rw [decide_eq_true_iff, r.mem_matched_iff hw]
  rw [removed_eq, List.mem_append, List.mem_append, List.mem_filterMap, hkept, List.mem_filterMap,
    or_assoc]
  simp only [List.mem_filter, hwatch, and_assoc]

end Restart

/-! ### When no VM a pod names is removed -/

namespace Relist
variable (r : Relist)

/-- A pod of the node that is not being deleted names this VM, by ID or, if managed, by name. -/
def Named (v : VM) : Prop :=
  ∃ pod ∈ r.pods, isMacosSpec pod.spec = false ∧ pod.deletionTimestamp = false ∧
    ((pod.vmid ≠ "" ∧ pod.vmid = v.id) ∨
      (pod.spec.managed = true ∧ pod.spec.vmName ≠ "" ∧ pod.spec.vmName = v.name))

/-- The pods' annotations and the records left to adopt from agree. -/
structure Agrees : Prop where
  /-- A record that is left to adopt from, and has the name of a managed pod that annotates
  another ID, is taken by some pod all the same. -/
  stale : ∀ v ∈ r.vms, (r.settle v).keep.isSome = true → ∀ pod ∈ r.pods,
    isMacosSpec pod.spec = false → pod.deletionTimestamp = false → pod.spec.managed = true →
    pod.spec.vmName ≠ "" → pod.spec.vmName = v.name → pod.vmid ≠ "" → pod.vmid ≠ v.id → r.Claimed v
  /-- A named placeholder that has left creating runs, or is still on its way. -/
  left : ∀ v ∈ r.vms, r.Named v → v.state = .creating → r.verb v.id = some .notCreating →
    ∀ fresh, r.inspect v.id = .found fresh → ∀ text, fresh.state ≠ .other text
  /-- A named placeholder that is watched settles as running while a pod has its name. -/
  watched : ∀ v ∈ r.vms, r.Named v → (r.settle v).watch = true → ∀ fresh lookup,
    settlesOn (r.ticks v.id) = some (fresh, lookup) →
      fresh.state = .running ∧ ∀ pods, lookup = some pods → vmNameWanted pods v.name = true

theorem named_congr {v w : VM} (hid : w.id = v.id) (hname : w.name = v.name) :
    r.Named w ↔ r.Named v := by
  unfold Named
  rw [hid, hname]

theorem claimed_congr {v w : VM} (hid : w.id = v.id) (hname : w.name = v.name) :
    r.Claimed w ↔ r.Claimed v := by
  unfold Claimed
  rw [hid, hname]

/- A named VM is taken unless every pod that names it annotates another ID. -/
theorem claimed_of_named {v : VM} (h : r.Named v)
    (hstale : ∀ pod ∈ r.pods, isMacosSpec pod.spec = false → pod.deletionTimestamp = false →
      pod.spec.managed = true → pod.spec.vmName ≠ "" → pod.spec.vmName = v.name → pod.vmid ≠ "" →
      pod.vmid ≠ v.id → r.Claimed v) : r.Claimed v := by
  obtain ⟨pod, hpod, hmac, hdel, hid | ⟨hman, hne, hname⟩⟩ := h
  · exact ⟨pod, hpod, hmac, Or.inl hid⟩
  · by_cases hempty : pod.vmid = ""
    · exact ⟨pod, hpod, hmac, Or.inr ⟨hempty, hne, hname⟩⟩
    · by_cases hsame : pod.vmid = v.id
      · exact ⟨pod, hpod, hmac, Or.inl ⟨hempty, hsame⟩⟩
      · exact hstale pod hpod hmac hdel hman hne hname hempty hsame

end Relist

/-- A restart removes no VM that a pod of its list names exactly if the annotations and the records
left to adopt from agree. -/
theorem Restart.startup_spares_named_iff (r : Restart) {S : Type} [DecidableEq S]
    (snapshot : LifecycleStatus → S) :
    (∀ w ∈ r.removed snapshot, ¬r.Named w) ↔ r.Agrees := by
  constructor
  · intro h
    refine ⟨fun v hv hkeep pod hpod hmac hdel hman hne hname hid hother => ?_,
      fun v hv hnamed hcreating hverb fresh hfresh text hstate => ?_,
      fun v hv hnamed hwatch fresh lookup hsettle => ?_⟩
    · obtain ⟨w, hw⟩ := Option.isSome_iff_exists.mp hkeep
      obtain ⟨hwid, hwname⟩ := r.settle_keep_same hv hw
      by_contra hun
      refine h w ((r.mem_removed snapshot).mpr (Or.inr (Or.inl ⟨r.mem_kept.mpr ⟨v, hv, hw⟩, ?_⟩)))
        ((r.named_congr hwid hwname).mpr ⟨pod, hpod, hmac, hdel, Or.inr ⟨hman, hne, hname⟩⟩)
      exact fun hc => hun ((r.claimed_congr hwid hwname).mp hc)
    · obtain ⟨hwid, hwname⟩ := r.inspect_same v hv fresh hfresh
      refine h fresh ((r.mem_removed snapshot).mpr (Or.inl ⟨v, hv, ?_⟩))
        ((r.named_congr hwid hwname).mpr hnamed)
      exact r.settle_orphan_iff.mpr ⟨hcreating, hverb, hfresh, text, hstate⟩
    · obtain ⟨hwid, hwname⟩ := r.settlesOn_same hv hsettle
      have hspared : ¬(fresh.state = .running →
          ∃ pods, lookup = some pods ∧ vmNameWanted pods fresh.name = false) := by
        intro hun
        refine h fresh ((r.mem_removed snapshot).mpr (Or.inr (Or.inr ⟨v, hv, hwatch, ?_⟩)))
          ((r.named_congr hwid hwname).mpr hnamed)
        exact watchBusyCreate_orphan_iff.mpr ⟨lookup, hsettle, hun⟩
      obtain ⟨hrun, hwanted⟩ := Classical.not_imp.mp hspared
      refine ⟨hrun, fun pods hpods => ?_⟩
      rw [← hwname]
      by_contra hno
      exact hwanted ⟨pods, hpods, Bool.not_eq_true _ ▸ hno⟩
  · intro hagree w hw hnamed
    rcases (r.mem_removed snapshot).mp hw with ⟨v, hv, horphan⟩ | ⟨hkept, hun⟩ | ⟨v, hv, hwatch, hend⟩
    · obtain ⟨hcreating, hverb, hfresh, text, hstate⟩ := r.settle_orphan_iff.mp horphan
      obtain ⟨hwid, hwname⟩ := r.inspect_same v hv w hfresh
      exact hagree.left v hv ((r.named_congr hwid hwname).mp hnamed) hcreating hverb w hfresh text hstate
    · obtain ⟨v, hv, hkeep⟩ := r.mem_kept.mp hkept
      obtain ⟨hwid, hwname⟩ := r.settle_keep_same hv hkeep
      refine hun ((r.claimed_congr hwid hwname).mpr
        (r.claimed_of_named ((r.named_congr hwid hwname).mp hnamed) ?_))
      exact hagree.stale v hv (by rw [hkeep]; rfl)
    · obtain ⟨lookup, hsettle, hun⟩ := watchBusyCreate_orphan_iff.mp hend
      obtain ⟨hwid, hwname⟩ := r.settlesOn_same hv hsettle
      obtain ⟨hrun, hwanted⟩ :=
        hagree.watched v hv ((r.named_congr hwid hwname).mp hnamed) hwatch w lookup hsettle
      obtain ⟨pods, hpods, hno⟩ := hun hrun
      rw [hwname, hwanted pods hpods] at hno
      cases hno

/- A pod whose annotation still holds the ID of a VM that is gone, and the VM that has its name. -/
def stalePod : Pod := { samplePod with vmid := "vm0" }

def noFindings : Findings where
  vmByID := none
  vmByName := none
  nameTaken := false
  liftInspect := none
  liftFlush := .pending
  readyFlush := .pending
  macosVM := none
  macosDead := false
  probeReady := false
  now := 0

def staleRestart : Restart where
  pods := [stalePod]
  keys_nodup := List.nodup_singleton _
  vms := [sampleVM]
  ids_nodup := List.nodup_singleton _
  names_unique := by decide
  verb := fun _ => none
  inspect := fun _ => .failed
  ticks := fun _ => []
  inspect_same := fun _ _ _ h => by cases h
  ticks_same := fun _ _ _ h => by cases h
  answers := fun _ => noFindings
  not_taken := fun _ _ => rfl

theorem startup_destroys_named :
    ¬∀ (r : Restart), ∀ w ∈ r.removed (fun s : LifecycleStatus => s), ¬r.Named w := by
  intro h
  have hremoved : staleRestart.removed (fun s : LifecycleStatus => s) = [sampleVM] := by decide +kernel
  refine h staleRestart sampleVM ?_ ?_
  · rw [hremoved]
    exact List.mem_singleton_self _
  · exact ⟨stalePod, List.mem_singleton_self _, rfl, rfl, Or.inr ⟨rfl, by decide, rfl⟩⟩

/-! ### The tables are those of `startupReconcile` -/

section Refine
variable {S : Type} [DecidableEq S] (snapshot : LifecycleStatus → S) (r : Relist)

def Relist.toStartup : Startup where
  pods := r.pods.map fun pod => (pod, r.findings pod)
  keys_nodup := by
    rw [List.map_map]
    exact r.keys_nodup
  orphans := []

theorem Relist.loop_tables (pods : List Pod) (t : Tables) (matched : List VMID) :
    (pods.foldl (matchStep snapshot r) (t, matched)).1 =
      ((pods.map fun pod => (pod, r.findings pod)).filter fun x => !isMacosSpec x.1.spec).foldl
        (reconcileOne snapshot) t := by
  induction pods generalizing t matched with
  | nil => rfl
  | cons pod pods ih =>
    rw [List.foldl_cons, List.map_cons]
    by_cases hmac : isMacosSpec pod.spec = true
    · have hstep : matchStep snapshot r (t, matched) pod = (t, matched) := if_pos hmac
      rw [hstep, List.filter_cons_of_neg (by simp [hmac]), ih]
    · have hstep : matchStep snapshot r (t, matched) pod =
          (reconcilePod snapshot t pod (r.findings pod),
            matched ++ (matchPod t pod (r.findings pod)).toList) := if_neg hmac
      have hone : reconcileOne snapshot t (pod, r.findings pod) =
          reconcilePod snapshot t pod (r.findings pod) := if_neg hmac
      rw [hstep, List.filter_cons_of_pos (by simpa using hmac), List.foldl_cons, hone, ih]

theorem Relist.macos_tables (pods : List Pod) (t : Tables) :
    (pods.filter fun pod => isMacosSpec pod.spec).foldl
      (fun t pod => reconcileMacosPod snapshot t pod (r.findings pod)) t =
    ((pods.map fun pod => (pod, r.findings pod)).filter fun x => isMacosSpec x.1.spec).foldl
      (reconcileOne snapshot) t := by
  induction pods generalizing t with
  | nil => rfl
  | cons pod pods ih =>
    rw [List.map_cons]
    by_cases hmac : isMacosSpec pod.spec = true
    · have hone : reconcileOne snapshot t (pod, r.findings pod) =
          reconcileMacosPod snapshot t pod (r.findings pod) := if_pos hmac
      rw [List.filter_cons, List.filter_cons, if_pos hmac, if_pos hmac, List.foldl_cons,
        List.foldl_cons, hone, ih]
    · rw [List.filter_cons, List.filter_cons, if_neg hmac, if_neg hmac, ih]

theorem Relist.reconcile_tables :
    (r.reconcile snapshot .destroy).1 = startupReconcile snapshot r.toStartup := by
  simp only [reconcile, sweep, adopt, foldl_handleOrphan_destroy, startupReconcile, toStartup,
    Startup.order, List.foldl_append, loop_tables, macos_tables, List.foldl_nil]

end Refine
end VkCocoon
