import VkCocoon.Tables

/-!
# The critical sections as operations on the tables

`TableOp` names the critical sections that run after startup and write the
tables; an interleaving of goroutines is, for the tables, a list of these. What an
operation can do to the three entries of a key that the protocols care about (the
tracked pod, the bound VM, the lifecycle intent) is said once, in
`run_pod`, `run_vm` and `run_intent`, and what it leaves of the other maps in
`run_of_untracks` and `run_leaves`; every invariant is derived from these.
-/

namespace VkCocoon
open Lib Tables

inductive TableOp where
  | trackPodLocked (pod : Pod) (v : Option VM)
  | trackPodUnlessDeleting (pod : Pod) (v : Option VM)
  | trackPodIncarnation (pod : Pod) (v : VM)
  | detachIncarnation (key : Key) (uid : UID) (v : Option VM)
  | untrackIncarnation (key : Key) (uid : UID)
  | forgetPod (key : Key)
  | forgetVMOnly (key : Key)
  | failCreate (pod : Pod) (absent : Bool)
  | updateTrackedVM (key : Key) (vmID : VMID) (m : VMMutation)
  | indexOrphanByName (v : VM)
  | dropStaleIndex (name : String) (existing : VM)
  | setLifecycleState (pod : Pod) (state : LifecycleState) (message : String)
  | setLifecycleStateForWake (pod : Pod) (vmID : VMID) (state : LifecycleState) (message : String)
  | liftHibernateFailure (pod : Pod)
  | republishLifecycleOnGenerationBump (pod : Pod)
  | recordLifecycleFlushed (key : Key) (uid : UID) (sent : LifecycleStatus)
  | dropSupersededLifecycle (key : Key) (uid : UID) (sent : LifecycleStatus)
  | markPostCloneState (pod : Pod) (state : PostCloneState)
  | clearRuntimeAnnotations (pod : Pod)
  | applyVMRuntime (pod : Pod) (vmid : VMID) (ip : String)
  | setPodAnnotationPostClone (pod : Pod) (state : PostCloneState)
  | claimDeletingIncarnation (key : Key) (uid : UID) (vmID : VMID)
  | claimDeleting (key : Key) (uid : UID)
  | finishDeleting (key : Key)
  | startHibernate (key : Key)
  | finishHibernate (key : Key)
  | noteVMGone (key : Key)
  | addPendingRecheck (vmID : VMID)
  | dropPendingRecheck (vmID : VMID)
  | claimResume (key : Key)
  | releaseResume (key : Key)
  | takeOpRetry (key : Key)
  | retryOpLater (pod : Pod) (prev now : ℕ)
  | takeRestart (vmID : VMID) (now : ℕ)
deriving DecidableEq, Repr

section Run
variable {S : Type} [DecidableEq S] (snapshot : LifecycleStatus → S)

def TableOp.run (t : Tables) : TableOp → Tables
  | .trackPodLocked pod v => t.trackPodLocked pod v
  | .trackPodUnlessDeleting pod v => (t.trackPodUnlessDeleting pod v).1
  | .trackPodIncarnation pod v => (t.trackPodIncarnation pod v).1
  | .detachIncarnation key uid v => (t.detachIncarnation key uid v).1
  | .untrackIncarnation key uid => (t.untrackIncarnationLocked key uid).1
  | .forgetPod key => t.forgetPod key
  | .forgetVMOnly key => t.forgetVMOnly key
  | .failCreate pod absent => t.failCreate pod absent
  | .updateTrackedVM key vmID m => (t.updateTrackedVM key vmID m).1
  | .indexOrphanByName v => t.indexOrphanByNameLocked v
  | .dropStaleIndex name existing => t.dropStaleIndex name existing
  | .setLifecycleState pod state message => (t.applyLifecycleLocked pod state message).1
  | .setLifecycleStateForWake pod vmID state message =>
    (t.setLifecycleStateForWake pod vmID state message).1
  | .liftHibernateFailure pod => (t.liftHibernateFailureLocked pod).1
  | .republishLifecycleOnGenerationBump pod => (t.republishLifecycleOnGenerationBump pod).1
  | .recordLifecycleFlushed key uid sent => t.recordLifecycleFlushed snapshot key uid sent
  | .dropSupersededLifecycle key uid sent => t.dropSupersededLifecycle snapshot key uid sent
  | .markPostCloneState pod state => (t.markPostCloneState pod state).1
  | .clearRuntimeAnnotations pod => t.clearRuntimeAnnotations pod
  | .applyVMRuntime pod vmid ip => (t.applyVMRuntime pod vmid ip).1
  | .setPodAnnotationPostClone pod state => t.setPodAnnotationPostClone pod state
  | .claimDeletingIncarnation key uid vmID => (t.claimDeletingIncarnation key uid vmID).1
  | .claimDeleting key uid => (t.claimDeleting key uid).1
  | .finishDeleting key => t.finishDeleting key
  | .startHibernate key => t.startHibernate key
  | .finishHibernate key => (t.finishHibernate key).1
  | .noteVMGone key => (t.noteVMGone key).1
  | .addPendingRecheck vmID => t.addPendingRecheck vmID
  | .dropPendingRecheck vmID => t.dropPendingRecheck vmID
  | .claimResume key => (t.claimResume key).1
  | .releaseResume key => t.releaseResume key
  | .takeOpRetry key => (t.takeOpRetry key).1
  | .retryOpLater pod prev now => t.retryOpLater pod prev now
  | .takeRestart vmID now => (t.takeRestart vmID now).1

end Run

/-- A step that enters at most one section. -/
def Tables.runOption {S : Type} [DecidableEq S] (snapshot : LifecycleStatus → S) (t : Tables) :
    Option TableOp → Tables
  | none => t
  | some op => op.run snapshot t

/- The write an operation asks `applyLifecycleLocked` for, when it gets that far. -/
def TableOp.lifecycleWrite (t : Tables) : TableOp → Option (Pod × LifecycleState × String)
  | .setLifecycleState pod state message => some (pod, state, message)
  | .setLifecycleStateForWake pod vmID state message =>
    if (t.pods.get pod.key).any (!·.hibernate) && (t.vmsByPod.get pod.key).any (·.id == vmID) then
      some (pod, state, message)
    else none
  | .liftHibernateFailure pod =>
    (t.hibernateFailedVMLocked pod.key pod.uid).map fun _ => (pod, .creating, "")
  | .republishLifecycleOnGenerationBump pod =>
    (t.lifecycleIntent.get pod.key).bind fun cur =>
      if cur.uid != pod.uid || decide (pod.generation ≤ cur.status.observedGeneration) then none
      else some (pod, cur.status.state, cur.status.message)
  | _ => none

/-- The state an operation writes to the intent of `key`, if its write is applied. -/
def TableOp.applied (t : Tables) (op : TableOp) (key : Key) : Option LifecycleState :=
  (op.lifecycleWrite t).bind fun w =>
    if w.1.key = key ∧ (t.applyLifecycleLocked w.1 w.2.1 w.2.2).2.2 = true then some w.2.1 else none

/-- The call of `trackPodLocked` an operation makes, if it gets that far. -/
def TableOp.tracks (t : Tables) : TableOp → Option (Pod × Option VM)
  | .trackPodLocked pod v => some (pod, v)
  | .trackPodUnlessDeleting pod v => if t.deletingLocked pod.key then none else some (pod, v)
  | .trackPodIncarnation pod v =>
    if t.deletingLocked pod.key || t.supersededLocked pod.key pod.uid then none
    else some (pod, some v)
  | _ => none

/-- Two views of one pod object: they may differ in the annotations the provider writes. -/
structure Pod.SameObject (a b : Pod) : Prop where
  ref : a.ref = b.ref
  key : a.key = b.key
  uid : a.uid = b.uid
  generation : a.generation = b.generation
  hibernate : a.hibernate = b.hibernate
  spec : a.spec = b.spec

theorem Pod.SameObject.refl (a : Pod) : a.SameObject a := ⟨rfl, rfl, rfl, rfl, rfl, rfl⟩

section Effects
variable {S : Type} [DecidableEq S] (snapshot : LifecycleStatus → S)

theorem run_of_tracks {t : Tables} {op : TableOp} {pod : Pod} {w : Option VM}
    (h : op.tracks t = some (pod, w)) : op.run snapshot t = t.trackPodLocked pod w := by
  cases op with
  | trackPodLocked p v =>
    cases h
    rfl
  | trackPodUnlessDeleting p v =>
    simp only [TableOp.tracks] at h
    split at h
    next => cases h
    next hd =>
      cases h
      simp only [TableOp.run, Tables.trackPodUnlessDeleting, if_neg hd]
  | trackPodIncarnation p v =>
    simp only [TableOp.tracks] at h
    split at h
    next => cases h
    next hd =>
      cases h
      simp only [TableOp.run, Tables.trackPodIncarnation, if_neg hd]
  | _ => cases h

def TableOp.isTracking : TableOp → Bool
  | .trackPodLocked .. | .trackPodUnlessDeleting .. | .trackPodIncarnation .. => true
  | _ => false

/- A tracking call that is turned away writes the orphan index at most. -/
theorem run_of_no_track {t : Tables} {op : TableOp} (hop : op.isTracking = true)
    (htr : op.tracks t = none) : ∃ names, op.run snapshot t = { t with vmsByName := names } := by
  cases op with
  | trackPodLocked p v => cases htr
  | trackPodUnlessDeleting p v =>
    simp only [TableOp.tracks] at htr
    split at htr
    next hd =>
      simp only [TableOp.run, Tables.trackPodUnlessDeleting, if_pos hd]
      exact ⟨t.vmsByName, rfl⟩
    next => cases htr
  | trackPodIncarnation p v =>
    simp only [TableOp.tracks] at htr
    split at htr
    next hd =>
      simp only [TableOp.run, Tables.trackPodIncarnation, if_pos hd]
      exact t.indexOrphanByNameLocked_eq v
    next => cases htr
  | _ => cases hop

/-! ### Operations that write the intent through `applyLifecycleLocked` -/

theorem run_of_lifecycleWrite {t : Tables} {op : TableOp} {pod : Pod} {state : LifecycleState}
    {message : String} (h : op.lifecycleWrite t = some (pod, state, message)) :
    op.run snapshot t = (t.applyLifecycleLocked pod state message).1 := by
  cases op with
  | setLifecycleState p s m =>
    cases h
    rfl
  | setLifecycleStateForWake p id s m =>
    simp only [TableOp.lifecycleWrite] at h
    split at h
    next hc =>
      cases h
      simp only [TableOp.run, setLifecycleStateForWake, hc, if_true]
    next => cases h
  | liftHibernateFailure p =>
    obtain ⟨v, hv, hw⟩ := Option.map_eq_some_iff.mp h
    cases hw
    simp only [TableOp.run, liftHibernateFailureLocked, hv]
  | republishLifecycleOnGenerationBump p =>
    obtain ⟨cur, hcur, hw⟩ := Option.bind_eq_some_iff.mp h
    split at hw
    next => cases hw
    next hc =>
      cases hw
      simp only [TableOp.run, republishLifecycleOnGenerationBump, hcur, if_neg hc]
  | _ => cases h

def TableOp.isLifecycleWrite : TableOp → Bool
  | .setLifecycleState .. | .setLifecycleStateForWake .. | .liftHibernateFailure _
  | .republishLifecycleOnGenerationBump _ => true
  | _ => false

theorem run_of_no_write {t : Tables} {op : TableOp} (hop : op.isLifecycleWrite = true)
    (hw : op.lifecycleWrite t = none) : op.run snapshot t = t := by
  cases op with
  | setLifecycleState pod state message => cases hw
  | setLifecycleStateForWake pod id state message =>
    simp only [TableOp.lifecycleWrite] at hw
    split at hw
    next => cases hw
    next hc => simp only [TableOp.run, setLifecycleStateForWake, if_neg hc]
  | liftHibernateFailure pod =>
    have hn := Option.map_eq_none_iff.mp hw
    simp only [TableOp.run, liftHibernateFailureLocked, hn]
  | republishLifecycleOnGenerationBump pod =>
    simp only [TableOp.lifecycleWrite] at hw
    simp only [TableOp.run, republishLifecycleOnGenerationBump]
    cases hcur : t.lifecycleIntent.get pod.key with
    | none => rfl
    | some cur =>
      rw [hcur, Option.bind_some] at hw
      split at hw
      next hc => simp only [if_pos hc]
      next => cases hw
  | _ => cases hop

theorem applied_of_refused {t : Tables} {op : TableOp} {pod : Pod} {state : LifecycleState}
    {message : String} (h : op.lifecycleWrite t = some (pod, state, message)) (k : Key)
    (hr : t.refusesLifecycle pod ⟨state, t.stampedGeneration pod, message⟩ = true) :
    op.applied t k = none := by
  simp [TableOp.applied, h, applyLifecycleLocked_result, hr]

theorem applied_of_accepted {t : Tables} {op : TableOp} {pod : Pod} {state : LifecycleState}
    {message : String} (h : op.lifecycleWrite t = some (pod, state, message)) (k : Key)
    (hr : t.refusesLifecycle pod ⟨state, t.stampedGeneration pod, message⟩ = false) :
    op.applied t k = if pod.key = k then some state else none := by
  simp [TableOp.applied, h, applyLifecycleLocked_result, hr]

theorem run_intent_of_no_write {t : Tables} {op : TableOp} (hw : op.lifecycleWrite t = none)
    (k : Key) :
    (op.run snapshot t).lifecycleIntent.get k = t.lifecycleIntent.get k ∨
    (op.run snapshot t).lifecycleIntent.get k = none ∨
    ∃ e sent, t.lifecycleIntent.get k = some e ∧
      op = .recordLifecycleFlushed k e.uid sent ∧ snapshot e.status = snapshot sent ∧
      (op.run snapshot t).lifecycleIntent.get k = some { e with flushed := some sent } := by
  have hdrop : ∀ key, (t.untrackLocked key).lifecycleIntent.get k = t.lifecycleIntent.get k ∨
      (t.untrackLocked key).lifecycleIntent.get k = none := by
    intro key
    rw [untrackLocked_lifecycleIntent]
    by_cases hk : k = key <;> simp [hk]
  have htrack : ∀ (pod : Pod) (w : Option VM),
      (t.trackPodLocked pod w).lifecycleIntent.get k = t.lifecycleIntent.get k ∨
      (t.trackPodLocked pod w).lifecycleIntent.get k = none := by
    intro pod w
    rw [trackPodLocked_intent]
    by_cases hk : k = pod.key
    · rw [if_pos hk]
      cases t.lifecycleIntent.get k with
      | none => exact Or.inl rfl
      | some cur =>
        rw [Option.filter_some]
        split <;> simp
    · exact Or.inl (if_neg hk)
  cases op
  case trackPodLocked pod w => exact (htrack pod w).imp_right Or.inl
  case trackPodUnlessDeleting pod w =>
    simp only [TableOp.run, Tables.trackPodUnlessDeleting]
    split
    · exact Or.inl rfl
    · exact (htrack pod w).imp_right Or.inl
  case trackPodIncarnation pod w =>
    simp only [TableOp.run, Tables.trackPodIncarnation]
    split
    · exact Or.inl (by rw [indexOrphanByNameLocked_lifecycleIntent])
    · exact (htrack pod (some w)).imp_right Or.inl
  case detachIncarnation key uid w =>
    obtain ⟨names, h | ⟨-, -, h⟩⟩ := t.detachIncarnation_cases key uid w
    · exact Or.inl (by simp only [TableOp.run, h])
    · simp only [TableOp.run, h]
      exact (hdrop key).imp_right Or.inl
  case untrackIncarnation key uid =>
    rcases t.untrackIncarnationLocked_cases key uid with h | ⟨-, h⟩
    · exact Or.inl (by simp only [TableOp.run, h])
    · simp only [TableOp.run, h]
      exact (hdrop key).imp_right Or.inl
  case forgetPod key => exact (hdrop key).imp_right Or.inl
  case setLifecycleState | setLifecycleStateForWake | liftHibernateFailure |
      republishLifecycleOnGenerationBump =>
    exact Or.inl (by rw [run_of_no_write snapshot rfl hw])
  case recordLifecycleFlushed key uid sent =>
    simp only [TableOp.run, recordLifecycleFlushed]
    cases hcur : t.lifecycleIntent.get key with
    | none => exact Or.inl rfl
    | some cur =>
      dsimp only
      split
      next ho =>
        have hown : cur.uid = uid ∧ snapshot cur.status = snapshot sent := by
          simpa [lifecycleOwnedLocked, hcur] using ho
        by_cases hk : k = key
        · subst hk
          refine Or.inr (Or.inr ⟨cur, sent, hcur, by rw [hown.1], hown.2, ?_⟩)
          exact GoMap.get_set_self _ _ _
        · exact Or.inl (GoMap.get_set_ne _ _ hk)
      next => exact Or.inl rfl
  case dropSupersededLifecycle key uid sent =>
    simp only [TableOp.run, dropSupersededLifecycle]
    split
    · rw [GoMap.get_del]
      by_cases hk : k = key <;> simp [hk]
    · exact Or.inl rfl
  all_goals
    left
    simp only [TableOp.run, forgetVMOnly, dropVMLocked_lifecycleIntent, failCreate,
      Tables.updateTrackedVM, setVMLocked_lifecycleIntent, indexOrphanByNameLocked_lifecycleIntent,
      dropStaleIndex, markPostCloneState, clearRuntimeAnnotations, mutatePod, applyVMRuntime,
      setPodAnnotationPostClone, claimDeletingIncarnation, claimDeleting, finishDeleting,
      startHibernate, finishHibernate, noteVMGone,
      addPendingRecheck, dropPendingRecheck, claimResume, releaseResume, takeOpRetry, retryOpLater,
      takeRestart]
    try (repeat' split)
    all_goals rfl

/- The intent of `k` is written by an accepted lifecycle write, or no write is applied
and the entry is kept, dropped, or marked as flushed. -/
theorem run_intent (t : Tables) (op : TableOp) (k : Key) :
    (∃ pod state message, op.lifecycleWrite t = some (pod, state, message) ∧ pod.key = k ∧
      t.refusesLifecycle pod ⟨state, t.stampedGeneration pod, message⟩ = false ∧
      op.applied t k = some state ∧
      (op.run snapshot t).lifecycleIntent.get k =
        some ⟨pod.uid, ⟨state, t.stampedGeneration pod, message⟩, none⟩) ∨
    (op.applied t k = none ∧
      ((op.run snapshot t).lifecycleIntent.get k = t.lifecycleIntent.get k ∨
       (op.run snapshot t).lifecycleIntent.get k = none ∨
       ∃ e sent, t.lifecycleIntent.get k = some e ∧
        op = .recordLifecycleFlushed k e.uid sent ∧ snapshot e.status = snapshot sent ∧
        (op.run snapshot t).lifecycleIntent.get k = some { e with flushed := some sent })) := by
  cases hw : op.lifecycleWrite t with
  | some w =>
    obtain ⟨pod, state, message⟩ := w
    rw [run_of_lifecycleWrite snapshot hw]
    cases hr : t.refusesLifecycle pod ⟨state, t.stampedGeneration pod, message⟩ with
    | true =>
      rw [applyLifecycleLocked_of_refused _ _ _ _ hr]
      exact Or.inr ⟨applied_of_refused hw k hr, Or.inl rfl⟩
    | false =>
      have ha := applied_of_accepted hw k hr
      rw [applyLifecycleLocked_of_accepted _ _ _ _ hr]
      by_cases hk : pod.key = k
      · rw [if_pos hk] at ha
        refine Or.inl ⟨pod, state, message, rfl, hk, hr, ha, ?_⟩
        rw [← hk]
        exact GoMap.get_set_self _ _ _
      · rw [if_neg hk] at ha
        exact Or.inr ⟨ha, Or.inl (GoMap.get_set_ne _ _ fun e => hk e.symm)⟩
  | none =>
    have ha : op.applied t k = none := by simp [TableOp.applied, hw]
    exact Or.inr ⟨ha, run_intent_of_no_write snapshot hw k⟩

/- Tracking a pod keeps the intent of its own incarnation only. -/
theorem run_intent_of_tracks {t : Tables} {op : TableOp} {pod : Pod} {w : Option VM}
    (h : op.tracks t = some (pod, w)) :
    (op.run snapshot t).lifecycleIntent.get pod.key =
      (t.lifecycleIntent.get pod.key).filter (·.uid == pod.uid) := by
  have hrun : op.run snapshot t = t.trackPodLocked pod w := run_of_tracks snapshot h
  rw [hrun, trackPodLocked_intent, if_pos rfl]

/-! ### The tracked pod -/

/-- The tracked pod of `k` stays the object it was, or disappears. -/
def KeepsPod (t t' : Tables) (k : Key) : Prop :=
  t'.pods.get k = none ∨
  ∃ p p', t.pods.get k = some p ∧ t'.pods.get k = some p' ∧ p.SameObject p'

theorem KeepsPod.of_get_eq {t t' : Tables} {k : Key} (h : t'.pods.get k = t.pods.get k) :
    KeepsPod t t' k := by
  cases hp : t.pods.get k with
  | none => exact Or.inl (h.trans hp)
  | some p => exact Or.inr ⟨p, p, hp, h.trans hp, .refl p⟩

theorem KeepsPod.of_set {t t' : Tables} {key : Key} {p p' : Pod} (hp : t.pods.get key = some p)
    (hs : p.SameObject p') (ht : t'.pods = t.pods.set key p') (k : Key) : KeepsPod t t' k := by
  by_cases hk : k = key
  · subst hk
    exact Or.inr ⟨p, p', hp, by rw [ht]; exact GoMap.get_set_self _ _ _, hs⟩
  · exact KeepsPod.of_get_eq (by rw [ht]; exact GoMap.get_set_ne _ _ hk)

theorem mutatePod_keeps (t : Tables) (pod : Pod) (f : Pod → Pod)
    (hf : ∀ p : Pod, p.SameObject (f p)) (k : Key) : KeepsPod t (t.mutatePod pod f) k := by
  unfold mutatePod
  cases ht : t.pods.get pod.key with
  | none => exact KeepsPod.of_get_eq rfl
  | some tracked =>
    dsimp only
    split
    · exact KeepsPod.of_set ht (hf tracked) rfl k
    · exact KeepsPod.of_get_eq rfl

theorem untrackLocked_keeps (t : Tables) (key k : Key) : KeepsPod t (t.untrackLocked key) k := by
  by_cases hk : k = key
  · exact Or.inl (by rw [untrackLocked_pods, if_pos hk])
  · exact KeepsPod.of_get_eq (by rw [untrackLocked_pods, if_neg hk])

theorem applyLifecycleLocked_keeps (t : Tables) (pod : Pod) (state : LifecycleState)
    (message : String) (k : Key) : KeepsPod t (t.applyLifecycleLocked pod state message).1 k := by
  cases hr : t.refusesLifecycle pod ⟨state, t.stampedGeneration pod, message⟩ with
  | true =>
    rw [applyLifecycleLocked_of_refused _ _ _ _ hr]
    exact KeepsPod.of_get_eq rfl
  | false =>
    rw [applyLifecycleLocked_of_accepted _ _ _ _ hr]
    cases ht : t.pods.get pod.key with
    | none => exact KeepsPod.of_get_eq rfl
    | some tracked =>
      refine KeepsPod.of_set ht ?_ rfl k
      exact ⟨rfl, rfl, rfl, rfl, rfl, rfl⟩

theorem run_pod_of_neither {t : Tables} {op : TableOp} (htr : op.tracks t = none)
    (hw : op.lifecycleWrite t = none) (k : Key) : KeepsPod t (op.run snapshot t) k := by
  cases op
  case trackPodLocked | trackPodUnlessDeleting | trackPodIncarnation =>
    obtain ⟨names, h⟩ := run_of_no_track snapshot rfl htr
    rw [h]
    exact KeepsPod.of_get_eq rfl
  case setLifecycleState | setLifecycleStateForWake | liftHibernateFailure |
      republishLifecycleOnGenerationBump =>
    rw [run_of_no_write snapshot rfl hw]
    exact KeepsPod.of_get_eq rfl
  case detachIncarnation key uid w =>
    obtain ⟨names, h | ⟨-, -, h⟩⟩ := t.detachIncarnation_cases key uid w
    · exact KeepsPod.of_get_eq (by simp only [TableOp.run, h])
    · simp only [TableOp.run, h]
      exact untrackLocked_keeps t key k
  case untrackIncarnation key uid =>
    rcases t.untrackIncarnationLocked_cases key uid with h | ⟨-, h⟩
    · exact KeepsPod.of_get_eq (by simp only [TableOp.run, h])
    · simp only [TableOp.run, h]
      exact untrackLocked_keeps t key k
  case forgetPod key => exact untrackLocked_keeps t key k
  case failCreate pod absent =>
    have hdel : KeepsPod t { t with pods := t.pods.del pod.key } k := by
      by_cases hk : k = pod.key
      · exact Or.inl (by rw [hk]; exact GoMap.get_del_self _ _)
      · exact KeepsPod.of_get_eq (GoMap.get_del_ne _ hk)
    simp only [TableOp.run, Tables.failCreate]
    split
    · exact KeepsPod.of_get_eq rfl
    · split
      · exact hdel
      · split <;> exact hdel
  case markPostCloneState pod state =>
    simp only [TableOp.run, Tables.markPostCloneState]
    split
    · exact KeepsPod.of_get_eq rfl
    · cases ht : t.pods.get pod.key with
      | none => exact KeepsPod.of_get_eq rfl
      | some target =>
        dsimp only
        split
        · exact KeepsPod.of_get_eq rfl
        · refine KeepsPod.of_set ht ?_ rfl k
          exact ⟨rfl, rfl, rfl, rfl, rfl, rfl⟩
  case clearRuntimeAnnotations pod =>
    simp only [TableOp.run, Tables.clearRuntimeAnnotations]
    split
    · exact KeepsPod.of_get_eq rfl
    · refine mutatePod_keeps t pod _ ?_ k
      exact fun p => ⟨rfl, rfl, rfl, rfl, rfl, rfl⟩
  case applyVMRuntime pod vmid ip =>
    simp only [TableOp.run, Tables.applyVMRuntime]
    split
    · exact KeepsPod.of_get_eq rfl
    · refine mutatePod_keeps t pod _ ?_ k
      exact fun p => ⟨rfl, rfl, rfl, rfl, rfl, rfl⟩
  case setPodAnnotationPostClone pod state =>
    simp only [TableOp.run, Tables.setPodAnnotationPostClone]
    split
    · exact KeepsPod.of_get_eq rfl
    · refine mutatePod_keeps t pod _ ?_ k
      exact fun p => ⟨rfl, rfl, rfl, rfl, rfl, rfl⟩
  all_goals
    apply KeepsPod.of_get_eq
    simp only [TableOp.run, forgetVMOnly, dropVMLocked_pods, Tables.updateTrackedVM,
      setVMLocked_pods, indexOrphanByNameLocked_pods, dropStaleIndex, recordLifecycleFlushed,
      dropSupersededLifecycle, claimDeletingIncarnation, claimDeleting, finishDeleting,
      startHibernate, finishHibernate, noteVMGone,
      addPendingRecheck, dropPendingRecheck, claimResume, releaseResume, takeOpRetry, retryOpLater,
      takeRestart]
    try (repeat' split)
    all_goals rfl

/- The tracked pod of `k` is kept or dropped, or a tracking call for a pod of that key
replaces it. -/
theorem run_pod (t : Tables) (op : TableOp) (k : Key) :
    KeepsPod t (op.run snapshot t) k ∨
    ∃ pod w l, op.tracks t = some (pod, w) ∧ pod.key = k ∧
      (op.run snapshot t).pods.get k = some { pod with lifecycle := l } := by
  cases htr : op.tracks t with
  | some pw =>
    obtain ⟨pod, w⟩ := pw
    rw [run_of_tracks snapshot htr]
    obtain ⟨l, hl⟩ := t.trackPodLocked_pods pod w
    by_cases hk : k = pod.key
    · exact Or.inr ⟨pod, w, l, rfl, hk.symm, by rw [hl, if_pos hk]⟩
    · exact Or.inl (KeepsPod.of_get_eq (by rw [hl, if_neg hk]))
  | none =>
    left
    cases hw : op.lifecycleWrite t with
    | some w =>
      obtain ⟨pod, state, message⟩ := w
      rw [run_of_lifecycleWrite snapshot hw]
      exact applyLifecycleLocked_keeps t pod state message k
    | none => exact run_pod_of_neither snapshot htr hw k

/-! ### What most sections leave alone -/

/-- The key whose entries a section drops by `untrackLocked`, if it gets that far. -/
def TableOp.untracks (t : Tables) : TableOp → Option Key
  | .detachIncarnation key uid _ =>
    if !t.deletingLocked key && t.trackedPodMatches key uid then some key else none
  | .untrackIncarnation key uid => if t.trackedPodMatches key uid then some key else none
  | .forgetPod key => some key
  | _ => none

def TableOp.isRetry : TableOp → Bool
  | .takeOpRetry _ | .retryOpLater .. => true
  | _ => false

def TableOp.isFence : TableOp → Bool
  | .claimDeletingIncarnation .. | .claimDeleting .. | .finishDeleting _ => true
  | _ => false

/-- The sections of `hibernate` and of the watcher that write `hibernating` or `pendingRecheck`. -/
def TableOp.isGoneFlag : TableOp → Bool
  | .startHibernate _ | .finishHibernate _ | .noteVMGone _ | .addPendingRecheck _
  | .dropPendingRecheck _ => true
  | _ => false

/-- `t'` has the sets of `t`. -/
structure Tables.SameFlags (t t' : Tables) : Prop where
  deleting : t'.deleting = t.deleting
  hibernating : t'.hibernating = t.hibernating
  pendingRecheck : t'.pendingRecheck = t.pendingRecheck

/-- `t'` has the maps of `t` that few sections write, unless `op` is one of those few. -/
structure TableOp.Leaves (op : TableOp) (t t' : Tables) : Prop where
  podLocks : t'.podLocks = t.podLocks
  opRetries : op.isRetry = false → t'.opRetries = t.opRetries
  macosVNC : (∀ pod absent, op ≠ .failCreate pod absent) → t'.macosVNC = t.macosVNC
  vmsByPod : op.tracks t = none → (∀ key, op ≠ .forgetVMOnly key) →
    (∀ key id m, op ≠ .updateTrackedVM key id m) → t'.vmsByPod = t.vmsByPod
  flags : op.isFence = false → op.isGoneFlag = false → t.SameFlags t'

theorem Tables.untrackLocked_sameFlags (t : Tables) (key : Key) : t.SameFlags (t.untrackLocked key) := by
  simp only [untrackLocked]
  rw [dropVMLocked_eq]
  exact ⟨rfl, rfl, rfl⟩

theorem run_of_untracks {t : Tables} {op : TableOp} {key : Key} (h : op.untracks t = some key) :
    ∃ names, op.run snapshot t = { t.untrackLocked key with vmsByName := names } := by
  cases op with
  | detachIncarnation k uid v =>
    simp only [TableOp.untracks] at h
    split at h
    next hm =>
      cases h
      rw [Bool.and_eq_true, Bool.not_eq_true'] at hm
      simp only [TableOp.run, Tables.detachIncarnation, untrackIncarnationLocked, hm.1, hm.2,
        Bool.false_eq_true, if_false, if_true]
      exact indexDetached_eq _ _ _
    next => cases h
  | untrackIncarnation k uid =>
    simp only [TableOp.untracks] at h
    split at h
    next hm =>
      cases h
      simp only [TableOp.run, untrackIncarnationLocked, hm, if_true]
      exact ⟨_, rfl⟩
    next => cases h
  | forgetPod k =>
    cases h
    exact ⟨_, rfl⟩
  | _ => cases h

theorem run_leaves {t : Tables} {op : TableOp} (hun : op.untracks t = none) : op.Leaves t (op.run snapshot t) := by
  have hnames : ∀ names, op.Leaves t { t with vmsByName := names } := fun _ =>
    ⟨rfl, fun _ => rfl, fun _ => rfl, fun _ _ _ => rfl, fun _ _ => ⟨rfl, rfl, rfl⟩⟩
  cases htr : op.tracks t with
  | some pw =>
    obtain ⟨l, hl⟩ := t.trackPodLocked_eq pw.1 pw.2
    rw [run_of_tracks snapshot htr, hl]
    refine ⟨?_, fun _ => ?_, fun _ => ?_, fun hno => ?_, fun _ _ => ?_⟩
    case refine_4 =>
      rw [hno] at htr
      cases htr
    all_goals cases pw.2 <;> first | rfl | exact ⟨rfl, rfl, rfl⟩
  | none =>
    cases op
    case trackPodLocked | trackPodUnlessDeleting | trackPodIncarnation =>
      obtain ⟨names, h⟩ := run_of_no_track snapshot rfl htr
      rw [h]
      exact hnames names
    case detachIncarnation key uid w =>
      obtain ⟨names, h | ⟨hd, hm, -⟩⟩ := t.detachIncarnation_cases key uid w
      · simp only [TableOp.run, h]
        exact hnames names
      · simp [TableOp.untracks, hd, hm] at hun
    case untrackIncarnation key uid =>
      rcases t.untrackIncarnationLocked_cases key uid with h | ⟨hm, -⟩
      · simp only [TableOp.run, h]
        exact hnames _
      · simp [TableOp.untracks, hm] at hun
    case forgetPod key => cases hun
    case forgetVMOnly key =>
      simp only [TableOp.run, Tables.forgetVMOnly]
      rw [dropVMLocked_eq]
      exact ⟨rfl, fun _ => rfl, fun _ => rfl, fun _ h => absurd rfl (h key), fun _ _ => ⟨rfl, rfl, rfl⟩⟩
    case indexOrphanByName v =>
      obtain ⟨names, h⟩ := t.indexOrphanByNameLocked_eq v
      simp only [TableOp.run, h]
      exact hnames names
    all_goals
      simp only [TableOp.run, Tables.updateTrackedVM, setVMLocked, failCreate, dropStaleIndex,
        applyLifecycleLocked, setLifecycleStateForWake, liftHibernateFailureLocked,
        republishLifecycleOnGenerationBump, recordLifecycleFlushed, dropSupersededLifecycle,
        markPostCloneState, clearRuntimeAnnotations, mutatePod, applyVMRuntime,
        setPodAnnotationPostClone, claimDeletingIncarnation, claimDeleting, finishDeleting,
        startHibernate, finishHibernate, noteVMGone, addPendingRecheck, dropPendingRecheck,
        claimResume, releaseResume, takeOpRetry, retryOpLater, takeRestart]
      try (repeat' split)
      all_goals
        refine ⟨rfl, fun h => ?_, fun h => ?_, fun _ _ h => ?_, fun h h' => ?_⟩
        · first | rfl | cases h
        · first | rfl | exact absurd rfl (h _ _)
        · first | rfl | exact absurd rfl (h _ _ _)
        · first | exact ⟨rfl, rfl, rfl⟩ | (cases h; done) | cases h'

/-! ### The bound VM -/

theorem VMMutation_apply_id (m : VMMutation) (v : VM) : (m.apply v).id = v.id := by
  cases m with
  | ip a => rfl
  | restarted pid ncs => rfl
  | rolledBackNIC fresh => cases fresh <;> rfl
  | macosRecord pid mac ncs => rfl

/- The binding of `k` is kept, dropped, rewritten by `updateTrackedVM`, or set by a
tracking call for a pod of that key. -/
theorem run_vm (t : Tables) (op : TableOp) (k : Key) :
    (op.run snapshot t).vmsByPod.get k = t.vmsByPod.get k ∨
    (op.run snapshot t).vmsByPod.get k = none ∨
    (∃ v m a, op = .updateTrackedVM k v.id m ∧ t.vmsByPod.get k = some v ∧
      (op.run snapshot t).vmsByPod.get k = some { m.apply v with addr := a }) ∨
    (∃ pod w, op.tracks t = some (pod, some w) ∧ pod.key = k ∧
      (op.run snapshot t).vmsByPod.get k = some w) := by
  cases htr : op.tracks t with
  | some pw =>
    obtain ⟨pod, w⟩ := pw
    rw [run_of_tracks snapshot htr, trackPodLocked_vmsByPod]
    by_cases hk : k = pod.key
    · cases w with
      | none => exact Or.inl (by rw [if_pos hk, Option.none_or])
      | some v =>
        exact Or.inr (Or.inr (Or.inr ⟨pod, v, rfl, hk.symm, by rw [if_pos hk, Option.some_or]⟩))
    · exact Or.inl (if_neg hk)
  | none =>
    cases hun : op.untracks t with
    | some key =>
      obtain ⟨names, h⟩ := run_of_untracks snapshot hun
      rw [h, untrackLocked_vmsByPod]
      by_cases hk : k = key <;> simp [hk]
    | none =>
      have hleaves := run_leaves snapshot hun
      cases op
      case forgetVMOnly key =>
        simp only [TableOp.run, Tables.forgetVMOnly, dropVMLocked_vmsByPod]
        by_cases hk : k = key <;> simp [hk]
      case updateTrackedVM key vmID m =>
        simp only [TableOp.run, Tables.updateTrackedVM]
        cases hv : t.vmsByPod.get key with
        | none => exact Or.inl rfl
        | some v =>
          dsimp only
          split
          next => exact Or.inl rfl
          next hid =>
            have hid' : v.id = vmID := by simpa using hid
            by_cases hk : k = key
            · subst hk
              refine Or.inr (Or.inr (Or.inl ⟨v, m, t.nextAddr, by rw [hid'], hv, ?_⟩))
              exact GoMap.get_set_self _ _ _
            · exact Or.inl (GoMap.get_set_ne _ _ hk)
      all_goals exact Or.inl (by rw [hleaves.vmsByPod htr (by simp) (by simp)])

/-! ### The name index -/

/-- The record an operation puts into the name index, if it gets that far. -/
def TableOp.indexes (t : Tables) : TableOp → Option VM
  | .trackPodLocked _ v | .trackPodUnlessDeleting _ v | .detachIncarnation _ _ v => v
  | .trackPodIncarnation _ v | .indexOrphanByName v => some v
  | .updateTrackedVM key vmID m => (t.updateTrackedVM key vmID m).2
  | _ => none

/- The entry of `name` is kept, dropped, or set to the record the operation brings. -/
theorem run_name (t : Tables) (op : TableOp) (name : String) :
    (op.run snapshot t).vmsByName.get name = t.vmsByName.get name ∨
    (op.run snapshot t).vmsByName.get name = none ∨
    ∃ v, op.indexes t = some v ∧ v.name = name ∧
      (op.run snapshot t).vmsByName.get name = some v := by
  have hdrop : ∀ key, (t.untrackLocked key).vmsByName.get name = t.vmsByName.get name ∨
      (t.untrackLocked key).vmsByName.get name = none := by
    intro key
    rw [untrackLocked_vmsByName]
    rcases t.dropVMLocked_vmsByName key name with h | ⟨h, -⟩
    · exact Or.inl h
    · exact Or.inr h
  have htrack : ∀ (pod : Pod) (w : Option VM),
      (t.trackPodLocked pod w).vmsByName.get name = t.vmsByName.get name ∨
      (t.trackPodLocked pod w).vmsByName.get name = none ∨
      ∃ v, w = some v ∧ v.name = name ∧ (t.trackPodLocked pod w).vmsByName.get name = some v := by
    intro pod w
    exact (t.trackPodLocked_vmsByName pod w name).imp_right Or.inr
  have hindex : ∀ v : VM, (t.indexOrphanByNameLocked v).vmsByName.get name = t.vmsByName.get name ∨
      (t.indexOrphanByNameLocked v).vmsByName.get name = none ∨
      ∃ u, some v = some u ∧ u.name = name ∧
        (t.indexOrphanByNameLocked v).vmsByName.get name = some u := by
    intro v
    rw [indexOrphanByNameLocked_vmsByName]
    split
    next h => exact Or.inr (Or.inr ⟨v, rfl, h.1.symm, rfl⟩)
    next => exact Or.inl rfl
  cases op
  case trackPodLocked pod w => exact htrack pod w
  case trackPodUnlessDeleting pod w =>
    simp only [TableOp.run, Tables.trackPodUnlessDeleting]
    split
    · exact Or.inl rfl
    · exact htrack pod w
  case trackPodIncarnation pod w =>
    simp only [TableOp.run, Tables.trackPodIncarnation]
    split
    · exact hindex w
    · exact htrack pod (some w)
  case detachIncarnation key uid w =>
    simp only [TableOp.run, Tables.detachIncarnation]
    split
    · exact Or.inl rfl
    · rcases (t.untrackIncarnationLocked key uid).1.indexDetached_vmsByName key w name with h | h
      · dsimp only
        rw [h]
        rcases t.untrackIncarnationLocked_cases key uid with hu | ⟨-, hu⟩
        · exact Or.inl (by rw [hu])
        · rw [hu]
          exact (hdrop key).imp_right Or.inl
      · exact Or.inr (Or.inr h)
  case untrackIncarnation key uid =>
    rcases t.untrackIncarnationLocked_cases key uid with h | ⟨-, h⟩
    · exact Or.inl (by simp only [TableOp.run, h])
    · simp only [TableOp.run, h]
      exact (hdrop key).imp_right Or.inl
  case forgetPod key => exact (hdrop key).imp_right Or.inl
  case forgetVMOnly key => exact (hdrop key).imp_right Or.inl
  case updateTrackedVM key vmID m =>
    simp only [TableOp.run, TableOp.indexes, Tables.updateTrackedVM]
    cases hv : t.vmsByPod.get key with
    | none => exact Or.inl rfl
    | some v =>
      dsimp only
      split
      next => exact Or.inl rfl
      next hid =>
        dsimp only
        rw [setVMLocked_vmsByName]
        split
        next h => exact Or.inr (Or.inr ⟨_, rfl, h.1.symm, rfl⟩)
        next => exact Or.inl rfl
  case indexOrphanByName v => exact hindex v
  case dropStaleIndex n existing =>
    simp only [TableOp.run, dropStaleIndex]
    split
    · by_cases hn : name = n
      · exact Or.inr (Or.inl (by rw [hn]; exact GoMap.get_del_self _ _))
      · exact Or.inl (GoMap.get_del_ne _ hn)
    · exact Or.inl rfl
  all_goals
    left
    simp only [TableOp.run, failCreate, applyLifecycleLocked, setLifecycleStateForWake,
      liftHibernateFailureLocked, republishLifecycleOnGenerationBump, recordLifecycleFlushed,
      dropSupersededLifecycle, markPostCloneState, clearRuntimeAnnotations, mutatePod, applyVMRuntime,
      setPodAnnotationPostClone, claimDeletingIncarnation, claimDeleting, finishDeleting,
      startHibernate, finishHibernate, noteVMGone, addPendingRecheck, dropPendingRecheck, claimResume,
      releaseResume, takeOpRetry, retryOpLater, takeRestart]
    try (repeat' split)
    all_goals rfl

/-! ### The sets a section may be waiting on -/

theorem run_sameFlags (t : Tables) (op : TableOp) (hf : op.isFence = false)
    (hg : op.isGoneFlag = false) : t.SameFlags (op.run snapshot t) := by
  cases hun : op.untracks t with
  | some key =>
    obtain ⟨names, h⟩ := run_of_untracks snapshot hun
    have hs := t.untrackLocked_sameFlags key
    rw [h]
    exact ⟨hs.deleting, hs.hibernating, hs.pendingRecheck⟩
  | none => exact (run_leaves snapshot hun).flags hf hg

theorem run_deleting (t : Tables) (op : TableOp) (h : op.isFence = false) :
    (op.run snapshot t).deleting = t.deleting := by
  cases hg : op.isGoneFlag with
  | false => exact (run_sameFlags snapshot t op h hg).deleting
  | true =>
    cases op
    case noteVMGone key =>
      simp only [TableOp.run, noteVMGone]
      split <;> rfl
    case startHibernate | finishHibernate | addPendingRecheck | dropPendingRecheck => rfl
    all_goals cases hg

/- Only `hibernate` itself puts a key into `hibernating` or takes it out. -/
theorem run_hibernating_has (t : Tables) (op : TableOp) (k : Key)
    (hs : ∀ key, op ≠ .startHibernate key) (hfin : ∀ key, op ≠ .finishHibernate key) :
    (op.run snapshot t).hibernating.has k = t.hibernating.has k := by
  cases op
  case startHibernate key => exact absurd rfl (hs key)
  case finishHibernate key => exact absurd rfl (hfin key)
  case noteVMGone key =>
    simp only [TableOp.run, noteVMGone]
    split
    next h =>
      rw [GoMap.has_set]
      by_cases hk : k = key
      · simp [hk, h]
      · simp [hk]
    next => rfl
  case claimDeletingIncarnation | claimDeleting | finishDeleting | addPendingRecheck |
      dropPendingRecheck =>
    simp only [TableOp.run, claimDeletingIncarnation, claimDeleting, finishDeleting,
      addPendingRecheck, dropPendingRecheck]
    try (repeat' split)
    all_goals rfl
  all_goals rw [(run_sameFlags snapshot t _ rfl rfl).hibernating]

theorem run_pendingRecheck (t : Tables) (op : TableOp) (ha : ∀ id, op ≠ .addPendingRecheck id)
    (hd : ∀ id, op ≠ .dropPendingRecheck id) :
    (op.run snapshot t).pendingRecheck = t.pendingRecheck := by
  cases op
  case addPendingRecheck id => exact absurd rfl (ha id)
  case dropPendingRecheck id => exact absurd rfl (hd id)
  case claimDeletingIncarnation | claimDeleting | finishDeleting | startHibernate |
      finishHibernate | noteVMGone =>
    simp only [TableOp.run, claimDeletingIncarnation, claimDeleting, finishDeleting, startHibernate,
      finishHibernate, noteVMGone]
    try (repeat' split)
    all_goals rfl
  all_goals exact (run_sameFlags snapshot t _ rfl rfl).pendingRecheck

end Effects
end VkCocoon
