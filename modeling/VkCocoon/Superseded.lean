import Mathlib.Data.List.Induction
import Mathlib.Data.List.Infix
import VkCocoon.Intent

/-!
# A superseded incarnation cannot touch its successor

A goroutine may still act for a pod whose name has been taken by another
incarnation. Every section it can reach is fenced by the incarnation it acts for,
inside the lock. `run_of_late` says what is left of such a section, `run_sameButNames`
that no other section reads what is left, and the two runs are compared from there.
-/

namespace VkCocoon
open Lib Tables

/-- `t'` is `t` but for the by-name index, which keeps the VMs no pod owns adoptable. -/
def Tables.SameButNames (t t' : Tables) : Prop := t' = { t with vmsByName := t'.vmsByName }

/-- The incarnation a fenced section acts for. -/
def TableOp.actsFor : TableOp → Option (Key × UID)
  | .setLifecycleState pod _ _ | .setLifecycleStateForWake pod _ _ _ | .markPostCloneState pod _
  | .setPodAnnotationPostClone pod _ | .clearRuntimeAnnotations pod | .trackPodIncarnation pod _
  | .applyVMRuntime pod _ _ | .retryOpLater pod _ _ | .liftHibernateFailure pod
  | .failCreate pod _ => some (pod.key, pod.uid)
  | .detachIncarnation key uid _ | .untrackIncarnation key uid | .claimDeletingIncarnation key uid _
  | .claimDeleting key uid => some (key, uid)
  | _ => none

section TwoRuns
variable {S : Type} [DecidableEq S] (snapshot : LifecycleStatus → S)

theorem sameButNames_iff {t t' : Tables} :
    t.SameButNames t' ↔ ∃ names, t' = { t with vmsByName := names } := by
  constructor
  · intro h
    exact ⟨_, h⟩
  · rintro ⟨names, rfl⟩
    rfl

theorem Tables.SameButNames.trans {t t' t'' : Tables} (h : t.SameButNames t')
    (h' : t'.SameButNames t'') : t.SameButNames t'' := by
  obtain ⟨names, rfl⟩ := sameButNames_iff.mp h
  obtain ⟨names', rfl⟩ := sameButNames_iff.mp h'
  rfl

/- Both runs decide alike what does not read the index. -/
theorem Tables.SameButNames.ite {c : Prop} {d d' : Decidable c} {t u t' u' : Tables}
    (h : c → t.SameButNames t') (h' : ¬c → u.SameButNames u') :
    (@ite _ c d t u).SameButNames (@ite _ c d' t' u') := by
  by_cases hc : c
  · rw [if_pos hc, if_pos hc]
    exact h hc
  · rw [if_neg hc, if_neg hc]
    exact h' hc

theorem superseded_of_tracked {t : Tables} {k : Key} {A B : UID} (hAB : A ≠ B)
    (ht : t.trackedPodMatches k B = true) :
    t.supersededLocked k A = true ∧ t.trackedPodMatches k A = false := by
  cases hp : t.pods.get k with
  | none => simp [trackedPodMatches, hp] at ht
  | some p =>
    have hu : p.uid = B := by simpa [trackedPodMatches, hp] using ht
    have hne : p.uid ≠ A := fun h => hAB (h.symm.trans hu)
    exact ⟨by simp [supersededLocked, hp, hne], by simp [trackedPodMatches, hp, hne]⟩

theorem applyLifecycleLocked_of_superseded {t : Tables} {pod : Pod}
    (hs : t.supersededLocked pod.key pod.uid = true) (state : LifecycleState) (message : String) :
    (t.applyLifecycleLocked pod state message).1 = t := by
  have hr : t.refusesLifecycle pod ⟨state, t.stampedGeneration pod, message⟩ = true := by
    simp only [refusesLifecycle, hs, Bool.true_or]
  rw [applyLifecycleLocked_of_refused _ _ _ _ hr]

/- A lifecycle write of a superseded incarnation is refused, whichever section asks for it. -/
theorem lifecycleWrite_of_superseded {t : Tables} {op : TableOp} {k : Key} {A : UID}
    (hop : op.isLifecycleWrite = true) (hact : op.actsFor = some (k, A))
    (hs : t.supersededLocked k A = true) : op.run snapshot t = t := by
  cases hw : op.lifecycleWrite t with
  | none => exact run_of_no_write snapshot hop hw
  | some w =>
    obtain ⟨pod, state, message⟩ := w
    have hpod : (pod.key, pod.uid) = (k, A) := by
      cases op
      case setLifecycleState => cases hw; exact Option.some.inj hact
      case setLifecycleStateForWake =>
        simp only [TableOp.lifecycleWrite] at hw
        split at hw
        · cases hw; exact Option.some.inj hact
        · cases hw
      case liftHibernateFailure =>
        obtain ⟨v, -, hw⟩ := Option.map_eq_some_iff.mp hw
        cases hw
        exact Option.some.inj hact
      case republishLifecycleOnGenerationBump => cases hact
      all_goals cases hop
    obtain ⟨rfl, rfl⟩ := Prod.mk.inj hpod
    rw [run_of_lifecycleWrite snapshot hw]
    exact applyLifecycleLocked_of_superseded hs state message

/- What a late section can still do: leave a VM in the by-name index. -/
theorem run_of_late {t : Tables} {op : TableOp} {k : Key} {A B : UID} (hAB : A ≠ B)
    (hact : op.actsFor = some (k, A)) (ht : t.trackedPodMatches k B = true) :
    t.SameButNames (op.run snapshot t) := by
  obtain ⟨hs, hm⟩ := superseded_of_tracked hAB ht
  have huid : (t.pods.get k).any (·.uid == A) = false := hm
  cases op
  case setLifecycleState | setLifecycleStateForWake | liftHibernateFailure =>
    rw [lifecycleWrite_of_superseded snapshot rfl hact hs]
    rfl
  case trackPodIncarnation pod v =>
    cases hact
    have hstop : (t.deletingLocked pod.key || t.supersededLocked pod.key pod.uid) = true := by
      rw [hs, Bool.or_true]
    simp only [TableOp.run, Tables.trackPodIncarnation, if_pos hstop]
    exact sameButNames_iff.mpr (t.indexOrphanByNameLocked_eq v)
  case detachIncarnation key uid v =>
    cases hact
    obtain ⟨names, h | ⟨-, hyes, -⟩⟩ := t.detachIncarnation_cases k A v
    · exact sameButNames_iff.mpr ⟨names, h⟩
    · rw [hm] at hyes
      cases hyes
  case untrackIncarnation key uid =>
    cases hact
    simp only [TableOp.run, untrackIncarnationLocked, hm, Bool.false_eq_true, if_false]
    rfl
  case claimDeletingIncarnation key uid vmID =>
    cases hact
    simp only [TableOp.run, Tables.claimDeletingIncarnation, huid, Bool.false_and,
      Bool.false_eq_true, if_false, ite_self]
    rfl
  case claimDeleting key uid =>
    cases hact
    simp only [TableOp.run, Tables.claimDeleting, if_pos hs]
    rfl
  case retryOpLater pod prev now =>
    cases hact
    simp only [TableOp.run, Tables.retryOpLater, hm, Bool.false_eq_true, if_false]
    rfl
  case markPostCloneState | setPodAnnotationPostClone | clearRuntimeAnnotations | applyVMRuntime |
      failCreate =>
    cases hact
    simp only [TableOp.run, Tables.markPostCloneState, Tables.setPodAnnotationPostClone,
      Tables.clearRuntimeAnnotations, Tables.applyVMRuntime, Tables.failCreate, if_pos hs]
    rfl
  all_goals cases hact

/-! ### No section reads the by-name index into another table -/

theorem dropVMLocked_sameButNames (t : Tables) (names : GoMap String VM) (key : Key) :
    (t.dropVMLocked key).SameButNames (({ t with vmsByName := names } : Tables).dropVMLocked key) := by
  unfold dropVMLocked
  cases t.vmsByPod.get key <;> rfl

theorem untrackLocked_sameButNames (t : Tables) (names : GoMap String VM) (key : Key) :
    (t.untrackLocked key).SameButNames
      (({ t with vmsByName := names } : Tables).untrackLocked key) := by
  obtain ⟨names', h⟩ := sameButNames_iff.mp (dropVMLocked_sameButNames t names key)
  unfold untrackLocked
  rw [h]
  rfl

theorem indexOrphanByNameLocked_sameButNames (t : Tables) (names : GoMap String VM) (v : VM) :
    (t.indexOrphanByNameLocked v).SameButNames
      (({ t with vmsByName := names } : Tables).indexOrphanByNameLocked v) := by
  unfold indexOrphanByNameLocked
  split <;> rfl

theorem detachIncarnation_sameButNames (t : Tables) (names : GoMap String VM) (key : Key) (uid : UID)
    (w : Option VM) : (t.detachIncarnation key uid w).1.SameButNames
      (({ t with vmsByName := names } : Tables).detachIncarnation key uid w).1 := by
  have hidx : ∀ t t' : Tables, t.SameButNames t' →
      (t.indexDetached key w).SameButNames (t'.indexDetached key w) := by
    intro t t' h
    obtain ⟨n, hn⟩ := t.indexDetached_eq key w
    obtain ⟨n', hn'⟩ := t'.indexDetached_eq key w
    obtain ⟨names, rfl⟩ := sameButNames_iff.mp h
    rw [hn, hn']
    rfl
  simp only [detachIncarnation, apply_ite Prod.fst, untrackIncarnationLocked]
  refine .ite (fun _ => rfl) fun _ => hidx _ _ ?_
  exact .ite (fun _ => untrackLocked_sameButNames t names key) fun _ => rfl

theorem trackPodLocked_sameButNames (t : Tables) (names : GoMap String VM) (pod : Pod)
    (w : Option VM) : (t.trackPodLocked pod w).SameButNames
      (({ t with vmsByName := names } : Tables).trackPodLocked pod w) := by
  unfold trackPodLocked reassertLifecycleLocked
  cases t.lifecycleIntent.get pod.key with
  | none => cases w <;> rfl
  | some cur =>
    by_cases hu : (cur.uid != pod.uid) = true
    · simp only [if_pos hu]
      cases w <;> rfl
    · simp only [if_neg hu]
      cases w <;> rfl

theorem applyLifecycleLocked_sameButNames (t : Tables) (names : GoMap String VM) (pod : Pod)
    (state : LifecycleState) (message : String) :
    (t.applyLifecycleLocked pod state message).1.SameButNames
      (({ t with vmsByName := names } : Tables).applyLifecycleLocked pod state message).1 := by
  have hr : ({ t with vmsByName := names } : Tables).refusesLifecycle pod
      ⟨state, t.stampedGeneration pod, message⟩ =
      t.refusesLifecycle pod ⟨state, t.stampedGeneration pod, message⟩ := rfl
  cases h : t.refusesLifecycle pod ⟨state, t.stampedGeneration pod, message⟩ with
  | true =>
    rw [applyLifecycleLocked_of_refused t pod state message h,
      applyLifecycleLocked_of_refused { t with vmsByName := names } pod state message (hr.trans h)]
    rfl
  | false =>
    rw [applyLifecycleLocked_of_accepted t pod state message h,
      applyLifecycleLocked_of_accepted { t with vmsByName := names } pod state message (hr.trans h)]
    rfl

theorem mutatePod_sameButNames (t : Tables) (names : GoMap String VM) (pod : Pod) (f : Pod → Pod) :
    (t.mutatePod pod f).SameButNames (({ t with vmsByName := names } : Tables).mutatePod pod f) := by
  unfold mutatePod
  cases t.pods.get pod.key with
  | none => rfl
  | some tracked => exact .ite (fun _ => rfl) fun _ => rfl

theorem run_sameButNames {t t' : Tables} (h : t.SameButNames t') (op : TableOp) :
    (op.run snapshot t).SameButNames (op.run snapshot t') := by
  obtain ⟨names, rfl⟩ := sameButNames_iff.mp h
  cases op
  case trackPodLocked pod w => exact trackPodLocked_sameButNames t names pod w
  case trackPodUnlessDeleting pod w =>
    simp only [TableOp.run, Tables.trackPodUnlessDeleting, apply_ite Prod.fst]
    exact .ite (fun _ => rfl) fun _ => trackPodLocked_sameButNames t names pod w
  case trackPodIncarnation pod v =>
    simp only [TableOp.run, Tables.trackPodIncarnation, apply_ite Prod.fst]
    exact .ite (fun _ => indexOrphanByNameLocked_sameButNames t names v)
      fun _ => trackPodLocked_sameButNames t names pod (some v)
  case detachIncarnation key uid w => exact detachIncarnation_sameButNames t names key uid w
  case untrackIncarnation key uid =>
    simp only [TableOp.run, untrackIncarnationLocked, apply_ite Prod.fst]
    exact .ite (fun _ => untrackLocked_sameButNames t names key) fun _ => rfl
  case forgetPod key => exact untrackLocked_sameButNames t names key
  case forgetVMOnly key => exact dropVMLocked_sameButNames t names key
  case indexOrphanByName v => exact indexOrphanByNameLocked_sameButNames t names v
  case setLifecycleState pod state message =>
    exact applyLifecycleLocked_sameButNames t names pod state message
  case setLifecycleStateForWake pod vmID state message =>
    simp only [TableOp.run, Tables.setLifecycleStateForWake, apply_ite Prod.fst]
    exact .ite (fun _ => applyLifecycleLocked_sameButNames t names pod state message) fun _ => rfl
  case liftHibernateFailure pod =>
    have hv : ({ t with vmsByName := names } : Tables).hibernateFailedVMLocked pod.key pod.uid =
      t.hibernateFailedVMLocked pod.key pod.uid := rfl
    simp only [TableOp.run, liftHibernateFailureLocked, hv]
    cases t.hibernateFailedVMLocked pod.key pod.uid with
    | none => rfl
    | some v => exact applyLifecycleLocked_sameButNames t names pod .creating ""
  case republishLifecycleOnGenerationBump pod =>
    simp only [TableOp.run, Tables.republishLifecycleOnGenerationBump]
    cases t.lifecycleIntent.get pod.key with
    | none => rfl
    | some cur =>
      simp only [apply_ite Prod.fst]
      exact .ite (fun _ => rfl) fun _ => applyLifecycleLocked_sameButNames t names pod _ _
  case updateTrackedVM key vmID m =>
    simp only [TableOp.run, Tables.updateTrackedVM]
    cases t.vmsByPod.get key with
    | none => rfl
    | some v =>
      simp only [apply_ite Prod.fst]
      exact .ite (fun _ => rfl) fun _ => rfl
  case recordLifecycleFlushed key uid sent =>
    simp only [TableOp.run, Tables.recordLifecycleFlushed]
    cases t.lifecycleIntent.get key with
    | none => rfl
    | some cur => exact .ite (fun _ => rfl) fun _ => rfl
  case failCreate pod absent =>
    exact .ite (fun _ => rfl) fun _ => .ite (fun _ => rfl) fun _ => .ite (fun _ => rfl) fun _ => rfl
  case markPostCloneState pod state =>
    simp only [TableOp.run, Tables.markPostCloneState, apply_ite Prod.fst]
    refine .ite (fun _ => rfl) fun _ => ?_
    cases t.pods.get pod.key with
    | none => rfl
    | some target =>
      simp only [apply_ite Prod.fst]
      exact .ite (fun _ => rfl) fun _ => rfl
  case clearRuntimeAnnotations pod =>
    exact .ite (fun _ => rfl) fun _ => mutatePod_sameButNames t names pod _
  case setPodAnnotationPostClone pod state =>
    exact .ite (fun _ => rfl) fun _ => mutatePod_sameButNames t names pod _
  case applyVMRuntime pod vmid ip =>
    simp only [TableOp.run, Tables.applyVMRuntime, apply_ite Prod.fst]
    exact .ite (fun _ => rfl) fun _ => mutatePod_sameButNames t names pod _
  case dropStaleIndex name existing =>
    simp only [TableOp.run, Tables.dropStaleIndex]
    split <;> split <;> rfl
  -- the sections left are at most two plain decisions on the other tables
  all_goals
    simp only [TableOp.run, dropSupersededLifecycle, Tables.claimDeletingIncarnation,
      Tables.claimDeleting, finishDeleting, startHibernate, finishHibernate, noteVMGone,
      addPendingRecheck, dropPendingRecheck, claimResume, releaseResume, takeOpRetry,
      Tables.retryOpLater, takeRestart, apply_ite Prod.fst]
    repeat' first | rfl | refine Tables.SameButNames.ite (fun _ => ?_) fun _ => ?_

/-! ### The two runs -/

theorem runOps_append (t : Tables) (ops : List TableOp) (op : TableOp) :
    runOps snapshot t (ops ++ [op]) = op.run snapshot (runOps snapshot t ops) := by
  simp only [runOps, List.foldl_append, List.foldl_cons, List.foldl_nil]

/-- Whatever a superseded incarnation still does, all tables but the by-name index go
through the states they go through without it. -/
theorem superseded_cannot_touch (t : Tables) (k : Key) (A B : UID) (hAB : A ≠ B)
    (ops : List TableOp)
    (hB : ∀ pre, pre <+: ops → (runOps snapshot t pre).trackedPodMatches k B = true) :
    ∀ pre, pre <+: ops →
      (runOps snapshot t (pre.filter fun op => op.actsFor != some (k, A))).SameButNames
        (runOps snapshot t pre) := by
  intro pre hpre
  -- along the run: a late step is dropped on the left, any other is taken on both sides
  induction pre using List.reverseRecOn with
  | nil => rfl
  | append_singleton pre op ih =>
    have hpre' : pre <+: ops := (List.prefix_append pre [op]).trans hpre
    have hsame := ih hpre'
    rw [runOps_append, List.filter_append]
    by_cases hlate : op.actsFor = some (k, A)
    · rw [List.filter_cons_of_neg (by simp [hlate]), List.filter_nil, List.append_nil]
      exact hsame.trans (run_of_late snapshot hAB hlate (hB pre hpre'))
    · rw [List.filter_cons_of_pos (by simpa using hlate), List.filter_nil, runOps_append]
      exact run_sameButNames snapshot hsame op

end TwoRuns

/- A pod recreated under its name while a create of the old incarnation still runs. -/
def oldPod : Pod := { samplePod with uid := "old", ref := 1 }
def recreatedTables : Tables := Tables.new.trackPodLocked samplePod (some sampleVM)
def lateVM : VM := { sampleVM with addr := 7, id := "vm0", name := "vk-old" }

def lateOps : List TableOp :=
  [.trackPodIncarnation oldPod lateVM, .setLifecycleState samplePod .creating "",
   .setLifecycleState oldPod .failed "create: timeout", .failCreate oldPod false,
   .detachIncarnation "ns/a" "old" none, .retryOpLater samplePod 0 5, .claimDeleting "ns/a" "old",
   .applyVMRuntime samplePod "vm1" "10.0.0.2"]

/- The late create leaves its VM in the by-name index, and nothing else. -/
theorem superseded_create_leaves_orphan :
    (runOps id recreatedTables
        (lateOps.filter fun op => op.actsFor != some ("ns/a", "old"))).SameButNames
      (runOps id recreatedTables lateOps) ∧
    (runOps id recreatedTables lateOps).vmsByName.get "vk-old" = some lateVM ∧
    lateOps.filter (fun op => op.actsFor != some ("ns/a", "old")) =
      [.setLifecycleState samplePod .creating "", .retryOpLater samplePod 0 5,
       .applyVMRuntime samplePod "vm1" "10.0.0.2"] := by
  have hB : ∀ pre ∈ lateOps.inits,
      (runOps id recreatedTables pre).trackedPodMatches "ns/a" "u" = true := by decide
  refine ⟨?_, by decide, by decide⟩
  exact superseded_cannot_touch id recreatedTables "ns/a" "old" "u" (by decide) lateOps
    (fun pre hpre => hB pre ((List.mem_inits pre lateOps).mpr hpre)) lateOps (List.prefix_refl _)

end VkCocoon
