import VkCocoon.Startup

/-!
# What StartupReconcile writes for one pod

The body of the startup loop enters a handful of critical sections, seeds the intent and
allocates records. `Adopts` says once which of these can happen for a pod; an invariant of
startup is checked against its constructors.
-/

namespace VkCocoon
open Lib Tables

/-- The VM records startup has for a pod. -/
inductive Takes (pod : Pod) (a : Findings) (u : VM) : Prop where
  /-- built from the annotations of an unmanaged pod -/
  | annotated (addr : ℕ) (hm : pod.spec.managed = false) (hset : pod.vmid ≠ "")
      (hu : u = ⟨addr, pod.vmid, pod.spec.vmName, "", .running, pod.ip, "", 0, []⟩)
  | named (hunset : pod.vmid = "") (hu : a.vmByName = some u)
  | listed (hm : pod.spec.managed = true) (hset : pod.vmid ≠ "") (hu : a.vmByID = some u)
  | guest (hm : isMacosSpec pod.spec = true) (hu : a.macosVM = some u)

/-- The sections startup enters for a pod. -/
def Adopting (pod : Pod) (a : Findings) : TableOp → Prop
  | .trackPodLocked q v => q.key = pod.key ∧ q.spec = pod.spec ∧ ∀ u ∈ v, Takes pod a u
  | .trackPodIncarnation q v => q = pod ∧ Takes pod a v
  | .detachIncarnation key _ v => key = pod.key ∧ ∀ u ∈ v, Takes pod a u
  | .recordLifecycleFlushed .. | .dropSupersededLifecycle .. | .setLifecycleState ..
  | .liftHibernateFailure _ | .retryOpLater .. | .applyVMRuntime .. | .clearRuntimeAnnotations _ => True
  | _ => False

section Adopt
variable {S : Type} [DecidableEq S] (snapshot : LifecycleStatus → S) {pod : Pod} {a : Findings}
  {t t' : Tables}

/-- A seed is of the incarnation that is tracked, or comes before the key is touched. -/
inductive Adopts (pod : Pod) (a : Findings) (t : Tables) : Tables → Prop where
  | refl : Adopts pod a t t
  | op (t' : Tables) (op : TableOp) (h : Adopts pod a t t') (hop : Adopting pod a op) :
      Adopts pod a t (op.run snapshot t')
  | seed (t' : Tables) (q : Pod) (h : Adopts pod a t t') (hk : q.key = pod.key)
      (hp : t'.pods = t.pods ∨ ∀ p, t'.pods.get pod.key = some p → p.uid = q.uid) :
      Adopts pod a t (t'.seedLifecycleIntentFromPod q)
  | alloc (t' : Tables) (n : ℕ) (h : Adopts pod a t t') : Adopts pod a t { t' with nextAddr := n }
  | leftover (t' : Tables) (m : GoMap Key UID) (h : Adopts pod a t t') :
      Adopts pod a t { t' with macosLeftover := m }

/-- The invariant rule for the startup of one pod. -/
theorem Adopts.invariant {I : Tables → Prop} (h : Adopts snapshot pod a t t')
    (hop : ∀ t op, Adopting pod a op → I t → I (op.run snapshot t))
    (hseed : ∀ t q, I t → I (t.seedLifecycleIntentFromPod q))
    (halloc : ∀ t n, I t → I { t with nextAddr := n })
    (hleft : ∀ t m, I t → I { t with macosLeftover := m }) (ht : I t) : I t' := by
  induction h with
  | refl => exact ht
  | op t' op _ hadopt ih => exact hop t' op hadopt ih
  | seed t' q _ _ _ ih => exact hseed t' q ih
  | alloc t' n _ ih => exact halloc t' n ih
  | leftover t' m _ ih => exact hleft t' m ih

variable {snapshot}

theorem endFlush_adopts (h : Adopts snapshot pod a t t') (p : Pod) (sent : LifecycleStatus)
    (f : FlushEnd) : Adopts snapshot pod a t (endFlush snapshot t' p sent f) := by
  cases f with
  | recorded => exact .op t' (.recordLifecycleFlushed p.key p.uid sent) h trivial
  | superseded => exact .op t' (.dropSupersededLifecycle p.key p.uid sent) h trivial
  | pending => exact h

theorem markReadyPublished_adopts (h : Adopts snapshot pod a t t') (p : Pod) (f : FlushEnd) :
    Adopts snapshot pod a t (markReadyPublished snapshot t' p f) := by
  have happ : Adopts snapshot pod a t (t'.applyLifecycleLocked p .ready "").1 :=
    .op t' (.setLifecycleState p .ready "") h trivial
  unfold markReadyPublished
  dsimp only
  split
  · exact endFlush_adopts happ p _ f
  · exact happ

theorem liftHibernateFailure_adopts (h : Adopts snapshot pod a t t') (p : Pod) (i : Option Bool)
    (f : FlushEnd) : Adopts snapshot pod a t (liftHibernateFailure snapshot t' p i f).1 := by
  have hlift : Adopts snapshot pod a t (t'.liftHibernateFailureLocked p).1 :=
    .op t' (.liftHibernateFailure p) h trivial
  unfold liftHibernateFailure
  split
  · exact h
  · split
    · exact h
    · exact h
    · split
      next heq => rwa [heq] at hlift
      next heq =>
        rw [heq] at hlift
        exact endFlush_adopts hlift p _ f

theorem liftClearedHibernateFailure_adopts (h : Adopts snapshot pod a t t') (p : Pod) (b : Findings) :
    Adopts snapshot pod a t (liftClearedHibernateFailure snapshot t' p b) := by
  have hlift := liftHibernateFailure_adopts h p b.liftInspect b.liftFlush
  unfold liftClearedHibernateFailure
  split
  · exact h
  · split
    next t₁ heq =>
      rw [heq] at hlift
      exact .op t₁ (.retryOpLater p 0 b.now) hlift trivial
    next heq => rwa [heq] at hlift
    next heq =>
      rw [heq] at hlift
      exact markReadyPublished_adopts hlift p b.readyFlush

/- `trackPod` stamps the object that `seedLifecycleIntentFromPod` then reads. -/
theorem trackAndSeed_adopts (h : Adopts snapshot pod a t t') {q : Pod} {v : Option VM}
    (hk : q.key = pod.key) (hs : q.spec = pod.spec) (hv : ∀ u ∈ v, Takes pod a u) :
    Adopts snapshot pod a t (trackAndSeed t' q v) := by
  obtain ⟨l, hl⟩ := t'.reassertLifecycleLocked_pod q
  obtain ⟨l', hl'⟩ := t'.trackPodLocked_pods q v
  unfold trackAndSeed
  rw [hl]
  refine .seed _ _ (.op t' (.trackPodLocked q v) h ⟨hk, hs, hv⟩) hk (Or.inr fun p hp => ?_)
  have hp : (t'.trackPodLocked q v).pods.get pod.key = some p := hp
  rw [hl', if_pos hk.symm] at hp
  cases hp
  rfl

theorem reconcileNoVMID_adopts (h : Adopts snapshot pod a t t') :
    Adopts snapshot pod a t (reconcileNoVMID t' pod) := by
  unfold reconcileNoVMID
  split
  · exact trackAndSeed_adopts h rfl rfl fun u hu => (by cases hu)
  · exact h

theorem bindRuntime_adopts (h : Adopts snapshot pod a t t') {v : VM} (hv : Takes pod a v)
    (nameTaken : Bool) : Adopts snapshot pod a t (bindRuntime t' pod v nameTaken).1 := by
  have htrack : Adopts snapshot pod a t (t'.trackPodIncarnation pod v).1 :=
    .op t' (.trackPodIncarnation pod v) h ⟨rfl, hv⟩
  have hdetach : ∀ t₁, Adopts snapshot pod a t t₁ →
      Adopts snapshot pod a t (t₁.detachIncarnation pod.key pod.uid (some v)).1 := fun t₁ h₁ =>
    .op t₁ (.detachIncarnation pod.key pod.uid (some v)) h₁
      ⟨rfl, fun u hu => by cases hu; exact hv⟩
  unfold bindRuntime
  split
  next heq => rwa [heq] at htrack
  next t₁ heq =>
    rw [heq] at htrack
    have happly : Adopts snapshot pod a t (t₁.applyVMRuntime pod v.id v.ip).1 :=
      .op t₁ (.applyVMRuntime pod v.id v.ip) htrack trivial
    split
    next heq₂ =>
      rw [heq₂] at happly
      exact hdetach _ happly
    next heq₂ =>
      rw [heq₂] at happly
      split
      · exact hdetach _ happly
      · exact happly

/- A bound incarnation is the tracked one. -/
theorem bindRuntime_owner {v : VM} {nameTaken : Bool}
    (h : bindRuntime t pod v nameTaken = (t', true)) (p : Pod)
    (hp : t'.pods.get pod.key = some p) : p.uid = pod.uid := by
  unfold bindRuntime at h
  split at h
  · cases h
  next t1 h1 =>
    have htr : ∃ l, t1.pods.get pod.key = some { pod with lifecycle := l } := by
      unfold trackPodIncarnation at h1
      split at h1
      · cases h1
      · cases h1
        obtain ⟨l, hl⟩ := t.trackPodLocked_pods pod (some v)
        exact ⟨l, by rw [hl, if_pos rfl]⟩
    obtain ⟨l, hl⟩ := htr
    split at h
    · cases h
    next t2 h2 =>
      split at h
      · cases h
      · cases h
        have hkeep : KeepsPod t1 t' pod.key := by
          have hrun : KeepsPod t1
              ((TableOp.applyVMRuntime pod v.id v.ip).run (fun s : LifecycleStatus => s) t1) pod.key :=
            run_pod_of_neither _ rfl rfl _
          simp only [TableOp.run, h2] at hrun
          exact hrun
        rcases hkeep with hnone | ⟨q, q', hq, hq', hsame⟩
        · rw [hnone] at hp
          cases hp
        · rw [hl] at hq
          rw [hq'] at hp
          cases hq
          cases hp
          exact hsame.uid.symm

theorem reconcilePod_adopts (t : Tables) (pod : Pod) (a : Findings) :
    Adopts snapshot pod a t (reconcilePod snapshot t pod a) := by
  unfold reconcilePod
  split
  next hunmanaged =>
    rw [Bool.and_eq_true, Bool.not_eq_true', bne_iff_ne] at hunmanaged
    refine trackAndSeed_adopts (.alloc t _ .refl) rfl rfl fun u hu => ?_
    cases hu
    exact .annotated _ hunmanaged.1 hunmanaged.2 rfl
  next hmanaged =>
    split
    next hunset =>
      have hunset := beq_iff_eq.mp hunset
      split
      · exact reconcileNoVMID_adopts .refl
      next v hv =>
        have hv : a.vmByName = some v := by
          split at hv
          · cases hv
          · exact hv
        have hbind : Adopts snapshot pod a t (bindRuntime t pod v a.nameTaken).1 :=
          bindRuntime_adopts .refl (.named hunset hv) a.nameTaken
        split
        next t₁ heq =>
          rw [heq] at hbind
          exact .seed t₁ pod hbind rfl (Or.inr (bindRuntime_owner heq))
        next heq =>
          rw [heq] at hbind
          exact reconcileNoVMID_adopts hbind
    next hset =>
      have hset : pod.vmid ≠ "" := by simpa using hset
      split
      · split
        · exact trackAndSeed_adopts (.op t (.clearRuntimeAnnotations pod) .refl trivial) rfl rfl
            fun u hu => (by cases hu)
        · exact .refl
      next v hv =>
        refine liftClearedHibernateFailure_adopts (trackAndSeed_adopts .refl rfl rfl ?_) pod a
        intro u hu
        cases hu
        have hm : pod.spec.managed = true := by simpa [hset] using hmanaged
        exact .listed hm hset hv

theorem reconcileMacosPod_adopts (t : Tables) {pod : Pod} (hmac : isMacosSpec pod.spec = true)
    (a : Findings) : Adopts snapshot pod a t (reconcileMacosPod snapshot t pod a) := by
  unfold reconcileMacosPod
  split
  · exact .refl
  · split
    · split
      · exact .leftover t _ .refl
      · exact .refl
    next v hv =>
      -- the seed comes before the pod is tracked
      have hseed : Adopts snapshot pod a t (t.seedLifecycleIntentFromPod pod) :=
        .seed t pod .refl rfl (Or.inl rfl)
      have hbind := bindRuntime_adopts hseed (.guest hmac hv) a.nameTaken
      split
      next heq => rwa [heq] at hbind
      next t₁ heq =>
        rw [heq] at hbind
        have hlift : ∀ t₂, Adopts snapshot pod a t t₂ →
            Adopts snapshot pod a t (publishMacosReadiness snapshot t₂ pod a) := by
          intro t₂ h₂
          unfold publishMacosReadiness
          split
          · exact markReadyPublished_adopts h₂ pod a.readyFlush
          · exact h₂
        refine hlift _ ?_
        split
        · exact hbind
        · exact liftHibernateFailure_adopts hbind pod a.liftInspect a.liftFlush

theorem reconcileOne_adopts (t : Tables) (x : Pod × Findings) :
    Adopts snapshot x.1 x.2 t (reconcileOne snapshot t x) := by
  unfold reconcileOne
  split
  next h => exact reconcileMacosPod_adopts t h x.2
  next => exact reconcilePod_adopts t x.1 x.2

theorem Adopts.deleting_eq (h : Adopts snapshot pod a t t') : t'.deleting = t.deleting := by
  refine h.invariant (I := fun t' => t'.deleting = t.deleting) snapshot ?_ ?_ (fun _ _ h => h)
    (fun _ _ h => h) rfl
  · intro t₁ op hop h₁
    have hfence : op.isFence = false := by
      cases op <;> first | rfl | cases hop
    exact (run_deleting snapshot t₁ op hfence).trans h₁
  · intro t₁ q h₁
    unfold seedLifecycleIntentFromPod
    split <;> exact h₁

/-! ### The records in the two indexes -/

/-- Every bound record meets `P` at its key and every indexed one meets `Q`. -/
structure Tables.Records (P : Key → VM → Prop) (Q : VM → Prop) (t : Tables) : Prop where
  bound : ∀ key v, t.vmsByPod.get key = some v → P key v
  named : ∀ name v, t.vmsByName.get name = some v → Q v

variable {P : Key → VM → Prop} {Q : VM → Prop}

theorem Tables.Records.of_eq (h : t.Records P Q) (hv : t'.vmsByPod = t.vmsByPod)
    (hn : t'.vmsByName = t.vmsByName) : t'.Records P Q := by
  constructor
  · rw [hv]
    exact h.bound
  · rw [hn]
    exact h.named

theorem run_records (snapshot : LifecycleStatus → S) (op : TableOp) (h : t.Records P Q)
    (hcopy : ∀ key id m, op ≠ .updateTrackedVM key id m)
    (htracks : ∀ pod v, op.tracks t = some (pod, some v) → P pod.key v)
    (hindexes : ∀ v, op.indexes t = some v → Q v) : (op.run snapshot t).Records P Q := by
  constructor
  · intro key v hv
    rcases run_vm snapshot t op key with heq | hnone | ⟨v₀, m, addr, hop, -, -⟩ |
      ⟨p, w, htr, hkey, hnew⟩
    · exact h.bound key v (heq ▸ hv)
    · rw [hnone] at hv
      cases hv
    · exact absurd hop (hcopy _ _ _)
    · rw [hnew] at hv
      cases hv
      rw [← hkey]
      exact htracks p v htr
  · intro name v hv
    rcases run_name snapshot t op name with heq | hnone | ⟨v', hi, -, hnew⟩
    · exact h.named name v (heq ▸ hv)
    · rw [hnone] at hv
      cases hv
    · rw [hnew] at hv
      cases hv
      exact hindexes v hi

/- Startup puts the records it has for a pod into the indexes and no others. -/
theorem Adopts.records (h : Adopts snapshot pod a t t') (hP : ∀ u, Takes pod a u → P pod.key u)
    (hQ : ∀ u, Takes pod a u → Q u) (ht : t.Records P Q) : t'.Records P Q := by
  refine h.invariant snapshot ?_ ?_ (fun _ _ h => h.of_eq rfl rfl) (fun _ _ h => h.of_eq rfl rfl) ht
  · intro t₁ op hop h₁
    refine run_records snapshot op h₁ ?_ ?_ ?_
    · rintro key id m rfl
      cases hop
    · intro p v htr
      cases op with
      | trackPodLocked q w =>
        cases htr
        rw [hop.1]
        exact hP v (hop.2.2 v rfl)
      | trackPodIncarnation q w =>
        simp only [TableOp.tracks] at htr
        split at htr
        · cases htr
        · cases htr
          rw [hop.1]
          exact hP v hop.2
      | trackPodUnlessDeleting q w => cases hop
      | _ => cases htr
    · intro v hi
      cases op with
      | trackPodLocked q w => exact hQ v (hop.2.2 v hi)
      | trackPodIncarnation q w =>
        cases hi
        exact hQ v hop.2
      | detachIncarnation key uid w => exact hQ v (hop.2 v hi)
      | trackPodUnlessDeleting | indexOrphanByName | updateTrackedVM => cases hop
      | _ => cases hi
  · intro t₁ q h₁
    unfold seedLifecycleIntentFromPod
    split
    · exact h₁
    · exact h₁.of_eq rfl rfl

end Adopt
end VkCocoon
