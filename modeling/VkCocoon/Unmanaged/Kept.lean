import VkCocoon.Node
import VkCocoon.Orphans

/-!
# The VM of an unmanaged pod

A pod with `Managed=false` names a VM that somebody else runs. The calls that would operate on the
VM, and what keeps it with its pod: the tables hold it under the key of that pod alone, from
`StartupReconcile` on and through every section that another pod's calls enter.
-/

namespace VkCocoon
open Lib Tables

/-! ### The calls that operate on a VM -/

/-- `Exec`, `NetResize`, `SnapshotSave` and `Remove` in a hibernate. -/
def Hib.operates (h : Hib) : Option VMID :=
  match h.pc with
  | .release | .dropNIC | .renewAfterDrop _ | .save | .remove | .addNIC _ | .renew _ => some h.v.id
  | _ => none

/-- `Start` and `Remove` in the watcher. -/
def GonePC.operates : GonePC → Option VMID
  | .start m _ => some m.v.id
  | .remove _ v => some v.id
  | _ => none

namespace Job
variable (job : Job)

/-- The renew that `waitForFreshIP` may run in a Windows guest without an address. -/
def nudge (seen : VM) (ip : String) : Option VMID :=
  if ip = "" ∧ job.wait ≠ .boot ∧ job.pod.spec.os = .windows then some seen.id else none

/-- `Exec` and the SAC pass in a tail. -/
def operates (w : World) (a : Answer) : TailPC → Option VMID
  | .exec _ _ => some job.v.id
  | .sac => if job.v.networkConfigs.any isStaticNIC then some job.v.id else none
  | .lease seen =>
    match w.resolveVMIP seen a.reply with
    | (_, true) => none
    | (ip, false) => job.nudge seen ip
  | .store seen ip =>
    job.nudge seen
      (if (w.tables.updateTrackedVM job.pod.key seen.id (.ip ip)).2.isSome then ip else "")
  | _ => none

end Job

/-- The VM for which the next step of a thread issues one of these calls. -/
def NodeThread.operates (w : World) (a : Answer) : NodeThread → Option VMID
  | .pod (.gone (.hibernate h)) => h.operates
  | .pod (.gone (.watch g)) => g.pc.operates
  | .pod (.bring b) =>
    match b.pc with
    | .resumeStart v => some v.id
    | _ => none
  | .pod (.tail t) => t.job.operates w a t.pc
  | .pod (.probe _ _) => none
  | .snapshot s => if s.pc = .save then some s.v.id else none
  | .fork f =>
    match f.pc with
    | .save id => some id
    | _ => none
  | .delete d =>
    match d.pc with
    | .save v | .remove v => some v.id
    | _ => none

abbrev NodeConfig := Config World NodeThread

/-- The step issues no call for VM `x`. -/
def Untouched (x : VMID) (c : NodeConfig) : NodeEvent → Prop
  | .run i a => ∀ t ∈ c.threads[i]?, t.operates c.shared a ≠ some x
  | _ => True

instance (x : VMID) (c : NodeConfig) : (e : NodeEvent) → Decidable (Untouched x c e)
  | .run i a => inferInstanceAs (Decidable (∀ t ∈ c.threads[i]?, t.operates c.shared a ≠ some x))
  | .start _ | .env _ => .isTrue trivial

/-! ### The pod and the others -/

namespace Pod

/-- An unmanaged pod with its pre-assigned VMID and IP. -/
def Assigned (u : Pod) : Prop := u.spec.managed = false ∧ u.vmid ≠ "" ∧ u.ip ≠ ""

/-- Another delivery of the pod `u`, or a recreate of it: every other annotation may differ. -/
def Copy (u p : Pod) : Prop :=
  p.key = u.key ∧ p.spec.managed = false ∧ p.spec.vmName = u.spec.vmName ∧ p.vmid = u.vmid ∧ p.ip ≠ ""

/-- A pod that is not given the VM of `u`. -/
def Foreign (u p : Pod) : Prop :=
  p.key ≠ u.key ∧ p.spec.vmName ≠ u.spec.vmName ∧ p.vmid ≠ u.vmid

/-- A restore from hibernate that needs no fixup in the guest, or none at all. -/
def Plain (p : Pod) : Prop :=
  p.restoreFromHibernate = true → shouldDropNICBeforeHibernate p.spec = false →
    p.spec.os ≠ .windows ∧ p.spec.backend ≠ .firecracker

instance (u p : Pod) : Decidable (u.Copy p) := inferInstanceAs (Decidable (_ ∧ _))
instance (u p : Pod) : Decidable (u.Foreign p) := inferInstanceAs (Decidable (_ ∧ _))
instance (p : Pod) : Decidable p.Plain := inferInstanceAs (Decidable (_ → _))

end Pod

/-- The record of the VM of `u` as the annotations have it. -/
def VM.Static (u : Pod) (v : VM) : Prop :=
  v.name = u.spec.vmName ∧ v.mac = "" ∧ v.ip ≠ "" ∧ v.networkConfigs = []

instance (u : Pod) (v : VM) : Decidable (v.Static u) := inferInstanceAs (Decidable (_ ∧ _))

theorem unmanagedVM_static {u p : Pod} (h : u.Copy p) : (unmanagedVM p).Static u :=
  ⟨h.2.2.1, rfl, h.2.2.2.2, rfl⟩

/-- A section that keeps the VM of `u` with `u`. -/
def TableOp.Harmless (u : Pod) : TableOp → Prop
  | .trackPodLocked p v | .trackPodUnlessDeleting p v =>
    (p.key = u.key → p.spec.managed = false) ∧
      ∀ w ∈ v, w.id = u.vmid → p.key = u.key ∧ w.Static u
  | .trackPodIncarnation p v =>
    (p.key = u.key → p.spec.managed = false) ∧ (v.id = u.vmid → p.key = u.key ∧ v.Static u)
  | .detachIncarnation _ _ v => ∀ w ∈ v, w.id = u.vmid → w.Static u
  | .indexOrphanByName v => v.id = u.vmid → v.Static u
  | .updateTrackedVM _ id _ => id ≠ u.vmid
  | _ => True

instance (u : Pod) : (op : TableOp) → Decidable (op.Harmless u)
  | .trackPodLocked p v | .trackPodUnlessDeleting p v =>
    inferInstanceAs (Decidable ((p.key = u.key → p.spec.managed = false) ∧
      ∀ w ∈ v, w.id = u.vmid → p.key = u.key ∧ w.Static u))
  | .trackPodIncarnation p v =>
    inferInstanceAs (Decidable ((p.key = u.key → p.spec.managed = false) ∧
      (v.id = u.vmid → p.key = u.key ∧ v.Static u)))
  | .detachIncarnation _ _ v =>
    inferInstanceAs (Decidable (∀ w ∈ v, w.id = u.vmid → w.Static u))
  | .indexOrphanByName v => inferInstanceAs (Decidable (v.id = u.vmid → v.Static u))
  | .updateTrackedVM _ id _ => inferInstanceAs (Decidable (id ≠ u.vmid))
  | .untrackIncarnation .. | .forgetPod _ | .forgetVMOnly _ | .failCreate .. | .dropStaleIndex ..
  | .setLifecycleState .. | .setLifecycleStateForWake .. | .liftHibernateFailure _
  | .republishLifecycleOnGenerationBump _ | .recordLifecycleFlushed .. | .dropSupersededLifecycle ..
  | .markPostCloneState .. | .clearRuntimeAnnotations _ | .applyVMRuntime ..
  | .setPodAnnotationPostClone .. | .claimDeletingIncarnation .. | .claimDeleting .. | .finishDeleting _
  | .startHibernate _ | .finishHibernate _ | .noteVMGone _ | .addPendingRecheck _
  | .dropPendingRecheck _ | .claimResume _ | .releaseResume _ | .takeOpRetry _ | .retryOpLater ..
  | .takeRestart .. => .isTrue trivial

/-- The tables have the VM of `u` under the key and the name of `u` alone, as the annotations have
it, and no managed pod under that key. -/
structure Kept (u : Pod) (t : Tables) : Prop where
  bound : ∀ key v, t.vmsByPod.get key = some v → v.id = u.vmid → key = u.key ∧ v.Static u
  named : ∀ name v, t.vmsByName.get name = some v → v.id = u.vmid →
    name = u.spec.vmName ∧ v.Static u
  pod : ∀ p, t.pods.get u.key = some p → p.spec.managed = false

section Kept
variable {S : Type} [DecidableEq S] (snapshot : LifecycleStatus → S) {u : Pod} {t : Tables}

theorem TableOp.Harmless.tracks {op : TableOp} {p : Pod} {w : Option VM} (h : op.Harmless u)
    (htr : op.tracks t = some (p, w)) : (p.key = u.key → p.spec.managed = false) ∧
      ∀ v, w = some v → v.id = u.vmid → p.key = u.key ∧ v.Static u := by
  cases op with
  | trackPodLocked q v =>
    cases htr
    exact h
  | trackPodUnlessDeleting q v =>
    simp only [TableOp.tracks] at htr
    split at htr
    · cases htr
    · cases htr
      exact h
  | trackPodIncarnation q v =>
    simp only [TableOp.tracks] at htr
    split at htr
    · cases htr
    · cases htr
      refine ⟨h.1, fun v' hv' => ?_⟩
      cases hv'
      exact h.2
  | _ => cases htr

theorem TableOp.Harmless.indexes {op : TableOp} {v : VM} (h : op.Harmless u)
    (hi : op.indexes t = some v) (hid : v.id = u.vmid) : v.Static u := by
  cases op with
  | trackPodLocked q w => exact (h.2 v hi hid).2
  | trackPodUnlessDeleting q w => exact (h.2 v hi hid).2
  | trackPodIncarnation q w =>
    cases hi
    exact (h.2 hid).2
  | detachIncarnation key uid w => exact h v hi hid
  | indexOrphanByName w =>
    cases hi
    exact h hid
  | updateTrackedVM key id m => exact absurd ((Hib.updateTrackedVM_id hi).symm.trans hid) h
  | _ => cases hi

theorem run_kept (op : TableOp) (h : Kept u t) (hop : op.Harmless u) :
    Kept u (op.run snapshot t) := by
  constructor
  · intro key v hv hid
    rcases run_vm snapshot t op key with heq | hnone | ⟨v₀, m, a, rfl, hv₀, hnew⟩ |
      ⟨p, w, htr, hkey, hnew⟩
    · exact h.bound key v (heq ▸ hv) hid
    · rw [hnone] at hv
      cases hv
    · rw [hnew] at hv
      cases hv
      exact absurd ((VMMutation_apply_id m v₀).symm.trans hid) hop
    · rw [hnew] at hv
      cases hv
      rw [← hkey]
      exact (hop.tracks htr).2 v rfl hid
  · intro name v hv hid
    rcases run_name snapshot t op name with heq | hnone | ⟨v', hi, hname, hnew⟩
    · exact h.named name v (heq ▸ hv) hid
    · rw [hnone] at hv
      cases hv
    · rw [hnew] at hv
      cases hv
      have hstatic := hop.indexes hi hid
      exact ⟨hname.symm.trans hstatic.1, hstatic⟩
  · intro p hp
    rcases run_pod snapshot t op u.key with (hn | ⟨q, q', hq, hq', hs⟩) | ⟨q, w, l, htr, hkey, hnew⟩
    · rw [hn] at hp
      cases hp
    · rw [hq'] at hp
      cases hp
      rw [← hs.spec]
      exact h.pod q hq
    · rw [hnew] at hp
      cases hp
      exact (hop.tracks htr).1 hkey

theorem runOption_kept {o : Option TableOp} (h : Kept u t) (hop : ∀ op ∈ o, op.Harmless u) :
    Kept u (t.runOption snapshot o) := by
  cases o with
  | none => exact h
  | some op => exact run_kept snapshot op h (hop op rfl)

theorem Kept.of_eq {t' : Tables} (h : Kept u t) (hp : t'.pods = t.pods)
    (hv : t'.vmsByPod = t.vmsByPod) (hn : t'.vmsByName = t.vmsByName) : Kept u t' := by
  constructor
  · rw [hv]
    exact h.bound
  · rw [hn]
    exact h.named
  · rw [hp]
    exact h.pod

/-! ### Startup keeps the VM with its pod -/

/- It does if the records the startup has for a pod are the VM only for the pod itself. -/
theorem Adopts.kept {p : Pod} {a : Findings} {t' : Tables} (hadopts : Adopts snapshot p a t t')
    (hp : p.key = u.key → p.spec.managed = false)
    (htakes : ∀ v, Takes p a v → v.id = u.vmid → p.key = u.key ∧ v.Static u) (h : Kept u t) :
    Kept u t' := by
  refine hadopts.invariant snapshot ?_ ?_ (fun _ _ h => h.of_eq rfl rfl rfl)
    (fun _ _ h => h.of_eq rfl rfl rfl) h
  · intro t₁ op hop h₁
    refine run_kept snapshot op h₁ ?_
    cases op with
    | trackPodLocked q v =>
      obtain ⟨hk, hs, hv⟩ := hop
      refine ⟨fun hq => ?_, fun w hw hid => ?_⟩
      · rw [hs]
        exact hp (hk ▸ hq)
      · rw [hk]
        exact htakes w (hv w hw) hid
    | trackPodIncarnation q v =>
      obtain ⟨rfl, hv⟩ := hop
      exact ⟨hp, htakes v hv⟩
    | detachIncarnation key uid v => exact fun w hw hid => (htakes w (hop.2 w hw) hid).2
    | recordLifecycleFlushed | dropSupersededLifecycle | setLifecycleState | liftHibernateFailure |
        retryOpLater | applyVMRuntime | clearRuntimeAnnotations => trivial
    | _ => cases hop
  · intro t₁ q h₁
    unfold seedLifecycleIntentFromPod
    split
    · exact h₁
    · exact h₁.of_eq rfl rfl rfl

/- The pod itself is adopted from its annotations. -/
theorem takes_copy {p : Pod} (hu : u.Assigned) (hp : u.Copy p) {a : Findings} {v : VM}
    (h : Takes p a v) : v.Static u := by
  have hset : p.vmid ≠ "" := by
    rw [hp.2.2.2.1]
    exact hu.2.1
  cases h with
  | annotated addr _ _ hv =>
    rw [hv]
    exact ⟨hp.2.2.1, rfl, hp.2.2.2.2, rfl⟩
  | named hunset => exact absurd hunset hset
  | listed hm =>
    rw [hp.2.1] at hm
    cases hm
  | guest hmac =>
    simp [isMacosSpec, hp.2.1] at hmac

theorem takes_foreign {p : Pod} (hp : u.Foreign p) {a : Findings}
    (hid : ∀ v, a.vmByID = some v → v.id ≠ u.vmid) (hname : ∀ v, a.vmByName = some v → v.id ≠ u.vmid)
    (hmac : isMacosSpec p.spec = true → ∀ v, a.macosVM = some v → v.id ≠ u.vmid) {v : VM}
    (h : Takes p a v) : v.id ≠ u.vmid := by
  cases h with
  | annotated addr _ _ hv =>
    rw [hv]
    exact hp.2.2
  | named _ hu => exact hname v hu
  | listed _ _ hu => exact hid v hu
  | guest hm hu => exact hmac hm v hu

end Kept

namespace Relist
variable {S : Type} [DecidableEq S] (snapshot : LifecycleStatus → S) {u : Pod} {r : Relist}

/-- The list has the pod and pods that are not given its VM; the runtime has the VM, if at all, as
one that is not being created, and under no other pod's name. -/
structure Spares (u : Pod) (r : Relist) : Prop where
  pods : ∀ p ∈ r.pods, u.Copy p ∨ u.Foreign p
  macos : ∀ p ∈ r.pods, ∀ v ∈ (r.answers p.key).macosVM, v.id ≠ u.vmid
  listed : ∀ v ∈ r.vms, v.id = u.vmid → v.state ≠ .creating ∧ (∃ p ∈ r.pods, u.Copy p) ∧
    ∀ p ∈ r.pods, u.Foreign p → p.spec.vmName ≠ v.name

/- No placeholder is the VM of the pod. -/
theorem Spares.orphan (hr : r.Spares u) {v w : VM} (hv : v ∈ r.vms)
    (h : (r.settle v).orphan = some w) : w.id ≠ u.vmid := by
  obtain ⟨hc, -, hi, -⟩ := r.settle_orphan_iff.mp h
  intro hid
  have hsame := (r.inspect_same v hv w hi).1
  exact (hr.listed v hv (hsame.symm.trans hid)).1 hc

theorem Spares.watched (hr : r.Spares u) {v : VM} (hv : v ∈ r.vms) (h : (r.settle v).watch = true) :
    v.id ≠ u.vmid := by
  intro hid
  have hnot := (hr.listed v hv hid).1
  unfold settle at h
  rw [if_neg (by simpa using hnot)] at h
  cases h

theorem handleOrphans_kept (policy : OrphanPolicy) (vs : List VM) (st : Tables × List VM)
    (hvs : ∀ v ∈ vs, v.id ≠ u.vmid) (ht : Kept u st.1) (hrem : ∀ v ∈ st.2, v.id ≠ u.vmid) :
    Kept u (vs.foldl (handleOrphan policy) st).1 ∧
      ∀ v ∈ (vs.foldl (handleOrphan policy) st).2, v.id ≠ u.vmid := by
  induction vs generalizing st with
  | nil => exact ⟨ht, hrem⟩
  | cons v vs ih =>
    have hv := hvs v List.mem_cons_self
    have hindex : Kept u (st.1.indexOrphanByNameLocked v) :=
      run_kept id (.indexOrphanByName v) ht fun hid => absurd hid hv
    rw [List.foldl_cons]
    refine ih _ (fun w hw => hvs w (List.mem_cons_of_mem _ hw)) ?_ ?_
    · cases policy with
      | destroy => exact ht
      | alert => exact hindex
      | keep => exact hindex
    · cases policy with
      | destroy =>
        intro w hw
        rcases List.mem_append.mp hw with hold | hnew
        · exact hrem w hold
        · rw [List.mem_singleton.mp hnew]
          exact hv
      | alert => exact hrem
      | keep => exact hrem

theorem Spares.findings (hr : r.Spares u) {p : Pod} (hp : p ∈ r.pods) (hf : u.Foreign p) :
    (∀ v, (r.findings p).vmByID = some v → v.id ≠ u.vmid) ∧
      ∀ v, (r.findings p).vmByName = some v → v.id ≠ u.vmid := by
  constructor
  · intro v hv
    rw [((r.vmByID_get p.vmid v).mp hv).2]
    exact hf.2.2
  · intro v hv hid
    obtain ⟨hk, hname⟩ := r.mem_of_vmByName hv
    obtain ⟨v₀, hv₀, hkeep⟩ := r.mem_kept.mp hk
    obtain ⟨hsid, hsname⟩ := r.settle_keep_same hv₀ hkeep
    exact (hr.listed v₀ hv₀ (hsid.symm.trans hid)).2.2 p hp hf (hname.symm.trans hsname)

theorem matchStep_kept (hu : u.Assigned) (hr : r.Spares u) {p : Pod} (hp : p ∈ r.pods)
    {st : Tables × List VMID} (h : Kept u st.1) : Kept u (matchStep snapshot r st p).1 := by
  unfold matchStep
  dsimp only
  split
  · exact h
  next hmac =>
    have hadopts : Adopts snapshot p (r.findings p) st.1 (reconcilePod snapshot st.1 p (r.findings p)) :=
      reconcilePod_adopts st.1 p (r.findings p)
    rcases hr.pods p hp with hcopy | hforeign
    · exact hadopts.kept snapshot (fun _ => hcopy.2.1)
        (fun v hv _ => ⟨hcopy.1, takes_copy hu hcopy hv⟩) h
    · obtain ⟨hid, hname⟩ := hr.findings hp hforeign
      refine hadopts.kept snapshot (fun hk => absurd hk hforeign.1) (fun v hv hvid => ?_) h
      exact absurd hvid (takes_foreign hforeign hid hname (fun hm => absurd hm hmac) hv)

theorem matchLoop_kept (hu : u.Assigned) (hr : r.Spares u) (pods : List Pod)
    (hsub : ∀ p ∈ pods, p ∈ r.pods) (st : Tables × List VMID) (h : Kept u st.1) :
    Kept u (pods.foldl (matchStep snapshot r) st).1 := by
  induction pods generalizing st with
  | nil => exact h
  | cons p pods ih =>
    rw [List.foldl_cons]
    exact ih (fun q hq => hsub q (List.mem_cons_of_mem _ hq)) _
      (matchStep_kept snapshot hu hr (hsub p List.mem_cons_self) h)

/- The loop matches the VMID of an unmanaged pod whatever the runtime says. -/
theorem mem_matched_copy (hu : u.Assigned) {p : Pod} (hp : u.Copy p) (pods : List Pod) (hmem : p ∈ pods)
    (st : Tables × List VMID) : u.vmid ∈ (pods.foldl (matchStep snapshot r) st).2 := by
  have hmono : ∀ (pods : List Pod) (st : Tables × List VMID), ∀ x ∈ st.2,
      x ∈ (pods.foldl (matchStep snapshot r) st).2 := by
    intro pods
    induction pods with
    | nil => exact fun st x hx => hx
    | cons q pods ih =>
      intro st x hx
      rw [List.foldl_cons]
      refine ih _ x ?_
      unfold matchStep
      dsimp only
      split
      · exact hx
      · exact List.mem_append_left _ hx
  obtain ⟨before, after, rfl⟩ := List.append_of_mem hmem
  rw [List.foldl_append, List.foldl_cons]
  refine hmono after _ u.vmid ?_
  have hmac : isMacosSpec p.spec = false := by
    simp [isMacosSpec, hp.2.1]
  have hmatch : ∀ t a, matchPod t p a = some u.vmid := by
    intro t a
    have hbranch : (!p.spec.managed && p.vmid != "") = true := by
      rw [hp.2.1, hp.2.2.2.1]
      simpa using hu.2.1
    unfold matchPod
    rw [if_neg (by rw [hmac]; decide), if_pos hbranch, hp.2.2.2.1]
  unfold matchStep
  dsimp only
  rw [if_neg (by rw [hmac]; decide), hmatch]
  exact List.mem_append_right _ (List.mem_singleton_self _)

theorem macosLoop_kept (hr : r.Spares u) (pods : List Pod)
    (hsub : ∀ p ∈ pods, p ∈ r.pods ∧ isMacosSpec p.spec = true) {t : Tables} (h : Kept u t) :
    Kept u (pods.foldl (fun t p => reconcileMacosPod snapshot t p (r.findings p)) t) := by
  induction pods generalizing t with
  | nil => exact h
  | cons p pods ih =>
    rw [List.foldl_cons]
    refine ih (fun q hq => hsub q (List.mem_cons_of_mem _ hq)) ?_
    obtain ⟨hp, hmac⟩ := hsub p List.mem_cons_self
    have hforeign : u.Foreign p := by
      refine (hr.pods p hp).resolve_left fun hcopy => ?_
      simp [isMacosSpec, hcopy.2.1] at hmac
    obtain ⟨hid, hname⟩ := hr.findings hp hforeign
    refine (reconcileMacosPod_adopts t hmac _).kept snapshot (fun hk => absurd hk hforeign.1)
      (fun v hv hvid => ?_) h
    exact absurd hvid (takes_foreign hforeign hid hname (fun _ => hr.macos p hp) hv)

theorem new_kept : Kept u Tables.new := by
  constructor
  · intro key v hv
    simp [Tables.new] at hv
  · intro name v hv
    simp [Tables.new] at hv
  · intro p hp
    simp [Tables.new] at hp

theorem sweep_kept (hu : u.Assigned) (hr : r.Spares u) (policy : OrphanPolicy) :
    Kept u (r.sweep snapshot policy).1 ∧ ∀ v ∈ (r.sweep snapshot policy).2, v.id ≠ u.vmid := by
  have hstale := handleOrphans_kept (u := u) policy
    (r.vms.filterMap fun v => (r.settle v).orphan) (.new, [])
    (fun w hw => by
      obtain ⟨v, hv, ho⟩ := List.mem_filterMap.mp hw
      exact hr.orphan hv ho) new_kept (fun v hv => by cases hv)
  have hloop := matchLoop_kept snapshot hu hr r.pods (fun _ h => h) (_, []) hstale.1
  have hmacos := macosLoop_kept snapshot hr (r.pods.filter fun p => isMacosSpec p.spec)
    (fun p hp => List.mem_filter.mp hp) hloop
  refine handleOrphans_kept policy _ _ (fun v hv hid => ?_) hmacos hstale.2
  -- a record under the VMID is matched by the pod, which is then on the list
  obtain ⟨hk, hun⟩ := List.mem_filter.mp hv
  obtain ⟨v₀, hv₀, hkeep⟩ := r.mem_kept.mp hk
  have hsame := (r.settle_keep_same hv₀ hkeep).1
  obtain ⟨-, ⟨p, hp, hcopy⟩, -⟩ := hr.listed v₀ hv₀ (hsame.symm.trans hid)
  have hmem := mem_matched_copy snapshot hu hcopy r.pods hp (r := r)
    (((r.vms.filterMap fun v => (r.settle v).orphan).foldl (handleOrphan policy) (.new, [])).1, [])
  simp only [decide_eq_true_eq] at hun
  rw [hid] at hun
  exact hun hmem

theorem watch_spares (hr : r.Spares u) (policy : OrphanPolicy) {st : Tables × List VM}
    (hrem : ∀ v ∈ st.2, v.id ≠ u.vmid) : ∀ v ∈ (r.watch policy st).2, v.id ≠ u.vmid := by
  -- what the policy is applied to is a settled record of the list, under its own ID
  unfold watch
  refine List.foldlRecOn (motive := fun st : Tables × List VM => ∀ v ∈ st.2, v.id ≠ u.vmid)
    _ _ hrem fun st hst v hv => ?_
  obtain ⟨hm, hwatch⟩ := List.mem_filter.mp hv
  have hid : v.id ≠ u.vmid := hr.watched hm hwatch
  cases hw : watchBusyCreate (r.ticks v.id) with
  | none => exact hst
  | some e =>
    cases e with
    | indexed fresh => exact hst
    | orphan fresh =>
      obtain ⟨lookup, hsettle, -⟩ := watchBusyCreate_orphan_iff.mp hw
      have hsame := (r.settlesOn_same hm hsettle).1
      cases policy with
      | destroy =>
        intro w hw
        rcases List.mem_append.mp hw with hold | hnew
        · exact hst w hold
        · rw [List.mem_singleton.mp hnew, hsame]
          exact hid
      | alert => exact hst
      | keep => exact hst

end Relist

end VkCocoon
