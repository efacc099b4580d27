import VkCocoon.Hibernate
import VkCocoon.Lib.Pool

/-!
# A failed hibernate

`hibernate` alone on its key, together with what the apiserver has of the runtime annotations of its
pod. `clearRuntimeAnnotations` takes the VMID, the IP and the post-clone marker; `rollbackHibernate`
applies the VMID and the IP again.
-/

namespace VkCocoon
open Lib Tables

structure RuntimeAnnotations where
  vmid : VMID
  ip : String
  postClone : PostCloneState
deriving DecidableEq, Repr

/-- A call of `hibernate`, with notes: whether the clear has been tried and reached the apiserver,
whether the rollback has published the VM again, and the error the call failed with. -/
structure HibRun where
  world : World
  hib : Hib
  api : RuntimeAnnotations
  cleared : Option Bool
  rolledBack : Bool
  failure : Option String

/-- The call holds a pointer to its pod: what the object reads now. -/
def Tables.object (t : Tables) (pod : Pod) : Pod :=
  match t.pods.get pod.key with
  | some tracked => if tracked.ref == pod.ref then tracked else pod
  | none => pod

namespace HibRun

/-- The call as it sees its pod now. -/
def now (s : HibRun) : Hib := { s.hib with pod := s.world.tables.object s.hib.pod }

def step (s : HibRun) (r : Reply) : Option HibRun :=
  (s.now.step s.world r).map fun x =>
    { world := x.1
      hib := x.2
      api := match s.hib.pc with
        | .clear | .clearAgain =>
          if s.world.tables.supersededLocked s.hib.pod.key s.hib.pod.uid || !r.lands then s.api
          else ⟨"", "", .absent⟩
        | .patch _ v => if r.lands then { s.api with vmid := v.id, ip := v.ip } else s.api
        | _ => s.api
      cleared := match s.hib.pc with
        | .clear => some (!s.world.tables.supersededLocked s.hib.pod.key s.hib.pod.uid && r.lands)
        | _ => s.cleared
      rolledBack := match s.hib.pc with
        | .patch _ _ => true
        | _ => s.rolledBack
      failure := match s.hib.pc with
        | .fail msg => some msg
        | _ => s.failure }

def ended (s : HibRun) : Bool := s.hib.pc = .schedule || s.hib.pc = .done

end HibRun

/-- The call with the answers it gets; the ones after its end are not asked for. -/
def hibernateCall : Machine HibRun Reply := ⟨fun s r => some ((s.step r).getD s)⟩

/-- The calls of the rollback succeed, and a remove that fails has not destroyed the VM. -/
def HibPC.rollbackSucceeds (r : Reply) : HibPC → Bool
  | .remove => r.err.isNone || !r.lands
  | .deleteManifest _ | .addNIC _ | .inspectNIC _ | .patch _ _ => r == .ok
  | _ => true

def RollbackSucceeds (s : HibRun) (r : Reply) : Prop := s.hib.pc.rollbackSucceeds r = true

instance (s : HibRun) (r : Reply) : Decidable (RollbackSucceeds s r) :=
  inferInstanceAs (Decidable (s.hib.pc.rollbackSucceeds r = true))

/-- The call of `applyUpdate`: its pod is the tracked object and its VM the bound one. -/
structure HibRun.Begins (s : HibRun) : Prop where
  tracked : s.world.tables.pods.get s.hib.pod.key = some s.hib.pod
  bound : s.world.tables.vmsByPod.get s.hib.pod.key = some s.hib.v
  free : s.world.tables.deletingLocked s.hib.pod.key = false
  pc : s.hib.pc = .startHibernate
  cleared : s.cleared = none
  rolledBack : s.rolledBack = false
  failure : s.failure = none

/-- The lifecycle of `pod` is failed with the hibernate prefix. -/
def Tables.HibernateFailed (t : Tables) (pod : Pod) : Prop :=
  ∃ cur, t.lifecycleIntent.get pod.key = some cur ∧ cur.uid = pod.uid ∧ cur.status.state = .failed ∧
    hasHibernateFailurePrefix cur.status.message = true

/-- The recorded intent of the incarnation is not of a later generation than the pod. -/
def Tables.Behind (t : Tables) (pod : Pod) : Prop :=
  ∀ cur, t.lifecycleIntent.get pod.key = some cur → cur.uid = pod.uid →
    cur.status.observedGeneration ≤ pod.generation

/-- What a failed hibernate is to leave. -/
structure HibRun.Restored (s s' : HibRun) : Prop where
  bound : ∃ u, s'.world.tables.vmsByPod.get s.hib.pod.key = some u ∧ u.id = s.hib.v.id
  notHibernating : s'.world.tables.hibernating.has s.hib.pod.key = false
  lifecycle : s'.world.tables.HibernateFailed s.hib.pod
  memory : (s'.world.tables.pods.get s.hib.pod.key).map (fun p => (p.vmid, p.postClone)) =
    some (s.hib.pod.vmid, s.hib.pod.postClone)
  apiserver : (s'.api.vmid, s'.api.postClone) = (s.api.vmid, s.api.postClone)

/-- The calls whose error fails a hibernate. -/
inductive HibCall where
  | dropNIC
  | save
  | push
  | remove
deriving DecidableEq, Repr

namespace HibRun

/-- The call that is made now, if the answer `r` is an error. -/
def fails (s : HibRun) (r : Reply) : Option HibCall :=
  match s.hib.pc with
  | .dropNIC => (s.world.netResize s.hib.v.id [] r).2.map fun _ => .dropNIC
  | .save => (s.world.snapshotSave s.hib.v.name s.hib.v.id r).2.map fun _ => .save
  | .push => (s.world.pushSnapshot s.hib.v.name s.hib.v.name r).2.map fun _ => .push
  | .remove => (s.world.remove s.hib.v.id r).2.map fun _ => .remove
  | _ => none

/-- The clear is made now and `r` lets it reach the apiserver; for a superseded pod it is skipped. -/
def clears (s : HibRun) (r : Reply) : Bool :=
  s.hib.pc = .clear && !s.world.tables.supersededLocked s.hib.pod.key s.hib.pod.uid && r.lands

/-- The call that fails when the answers are `rs`. -/
def failedCall : HibRun → List Reply → Option HibCall
  | _, [] => none
  | s, r :: rs => (s.fails r).or (((s.step r).getD s).failedCall rs)

/-- Whether the clear reaches the apiserver when the answers are `rs`. -/
def clearLands : HibRun → List Reply → Bool
  | _, [] => false
  | s, r :: rs => s.clears r || ((s.step r).getD s).clearLands rs

/-- When a failed hibernate does leave that, by the call that fails. -/
structure Keeps (s : HibRun) (rs : List Reply) : Prop where
  lifecycle : s.world.tables.Behind s.hib.pod ∨ s.world.tables.HibernateFailed s.hib.pod
  vmid : s.failedCall rs ≠ some .dropNIC → s.hib.pod.vmid = s.hib.v.id ∧ s.api.vmid = s.hib.v.id
  memory : s.failedCall rs = some .remove → s.hib.pod.postClone = .absent
  apiserver : s.failedCall rs = some .remove → s.clearLands rs = true → s.api.postClone = .absent

end HibRun

/-! ### The call comes to its end -/

/-- The number of steps to the end. -/
def HibPC.rank : HibPC → ℕ
  | .startHibernate => 19
  | .markHibernating => 18
  | .release => 17
  | .dropNIC => 16
  | .save => 15
  | .push => 14
  | .clear => 13
  | .remove => 12
  | .deleteManifest _ => 11
  | .addNIC _ => 10
  | .inspectNIC _ => 9
  | .refreshNIC _ _ => 8
  | .bind _ _ => 7
  | .stamp _ _ => 6
  | .patch _ _ | .releaseLeases => 5
  | .detach _ _ | .clearAgain => 4
  | .renew _ | .renewAfterDrop _ | .forgetVM => 3
  | .fail _ | .markHibernated => 2
  | .finishHibernate => 1
  | .schedule | .done => 0

namespace Hib
variable {w : World} {h : Hib} {r : Reply} {s : World × Hib}

theorem rollback_rank (h : Hib) (msg : String) : (h.rollback msg).rank ≤ 10 := by
  unfold rollback
  split
  · exact Nat.le_refl 10
  · exact Nat.le_add_right 7 3

theorem afterRollback_rank (h : Hib) (msg : String) : (h.afterRollback msg).rank ≤ 3 := by
  unfold afterRollback
  split
  · exact Nat.le_refl 3
  · exact Nat.le_succ 2

theorem step_rank (hs : h.step w r = some s) : s.2.pc.rank < h.pc.rank := by
  have hback : ∀ msg, (h.rollback msg).rank < 11 := fun msg => Nat.lt_succ_of_le (h.rollback_rank msg)
  have hafter : ∀ msg, (h.afterRollback msg).rank < 4 := fun msg =>
    Nat.lt_succ_of_le (h.afterRollback_rank msg)
  unfold step at hs
  cases hpc : h.pc with
  | schedule | done =>
    rw [hpc] at hs
    cases hs
  | _ =>
    simp only [hpc] at hs
    repeat' split at hs
    all_goals
      cases hs
      dsimp only
      first
        | (simp only [HibPC.rank]; omega)
        | exact Nat.lt_of_lt_of_le (hback _) (by simp only [HibPC.rank]; omega)
        | exact Nat.lt_of_lt_of_le (hafter _) (by simp only [HibPC.rank]; omega)

theorem step_isSome (w : World) (r : Reply) (hpc : h.pc.rank ≠ 0) : (h.step w r).isSome = true := by
  unfold step
  cases h' : h.pc with
  | schedule | done =>
    rw [h'] at hpc
    exact absurd rfl hpc
  | _ =>
    dsimp only
    repeat' split
    all_goals rfl

end Hib

theorem HibRun.step_rank {s s' : HibRun} {r : Reply} (h : s.step r = some s') :
    s'.hib.pc.rank < s.hib.pc.rank := by
  obtain ⟨x, hx, rfl⟩ := Option.map_eq_some_iff.mp h
  exact Hib.step_rank (h := s.now) hx

theorem HibRun.rank_of_stuck {s : HibRun} {r : Reply} (h : s.step r = none) : s.hib.pc.rank = 0 := by
  by_contra hpos
  have hsome := Hib.step_isSome (h := s.now) s.world r hpos
  rw [HibRun.step, Option.map_eq_none_iff] at h
  rw [h] at hsome
  cases hsome

/- As many answers as its rank bring a call to its end. -/
theorem hibernate_ends (s : HibRun) (rs : List Reply) (hlen : s.hib.pc.rank ≤ rs.length) :
    ∃ s', hibernateCall.exec s rs = some s' ∧ s'.hib.pc.rank = 0 := by
  induction rs generalizing s with
  | nil => exact ⟨s, rfl, Nat.le_zero.mp hlen⟩
  | cons r rs ih =>
    have hnext : ((s.step r).getD s).hib.pc.rank ≤ rs.length := by
      cases hs : s.step r with
      | some s' =>
        have hlt := HibRun.step_rank hs
        rw [List.length_cons] at hlen
        exact Nat.le_of_lt_succ (Nat.lt_of_lt_of_le hlt hlen)
      | none =>
        have hzero : s.hib.pc.rank = 0 := HibRun.rank_of_stuck hs
        exact hzero ▸ Nat.zero_le _
    exact ih _ hnext

/-! ### What the call reads of its pod -/

/-- The pod `pod` with runtime annotations `vmid` and `post` is tracked, a VM `id` is bound to it, and
it is not being deleted. -/
structure Held (pod : Pod) (id vmid : VMID) (post : PostCloneState) (t : Tables) : Prop where
  reads : ∃ l i, t.pods.get pod.key =
    some { pod with lifecycle := l, ip := i, vmid := vmid, postClone := post }
  vm : ∃ u, t.vmsByPod.get pod.key = some u ∧ u.id = id
  free : t.deletingLocked pod.key = false

section Held
variable {pod q : Pod} {id vmid : VMID} {post : PostCloneState} {t : Tables}

theorem Held.object (h : Held pod id vmid post t) (hk : q.key = pod.key) (hr : q.ref = pod.ref) :
    t.pods.get pod.key = some (t.object q) ∧ ∃ l i,
      t.object q = { pod with lifecycle := l, ip := i, vmid := vmid, postClone := post } := by
  obtain ⟨l, i, hp⟩ := h.reads
  have hobj : t.object q = { pod with lifecycle := l, ip := i, vmid := vmid, postClone := post } := by
    simp only [Tables.object, hk, hp, hr, beq_self_eq_true, if_true]
  exact ⟨by rw [hobj]; exact hp, l, i, hobj⟩

/- The three tables that are read are the same. -/
theorem Held.of_eq {t' : Tables} (h : Held pod id vmid post t) (hp : t'.pods = t.pods)
    (hv : t'.vmsByPod = t.vmsByPod) (hd : t'.deleting = t.deleting) : Held pod id vmid post t' := by
  refine ⟨?_, ?_, ?_⟩
  · rw [hp]
    exact h.reads
  · rw [hv]
    exact h.vm
  · exact (congrArg (fun m => m.has pod.key) hd).trans h.free

/- The object stays tracked while its fields are written. -/
theorem Held.write {t' : Tables} {vmid' : VMID} {post' : PostCloneState} (h : Held pod id vmid post t)
    {f : Pod → Pod} (ht : t' = { t with pods := t.pods.set pod.key (f (t.object q)) })
    (hk : q.key = pod.key) (hr : q.ref = pod.ref)
    (hf : ∀ l i, ∃ l' i', f { pod with lifecycle := l, ip := i, vmid := vmid, postClone := post } =
      { pod with lifecycle := l', ip := i', vmid := vmid', postClone := post' }) :
    Held pod id vmid' post' t' := by
  obtain ⟨-, l, i, hobj⟩ := h.object hk hr
  obtain ⟨l', i', hf⟩ := hf l i
  subst ht
  refine ⟨⟨l', i', ?_⟩, h.vm, h.free⟩
  rw [hobj, hf]
  exact GoMap.get_set_self _ _ _

theorem Held.lifecycle (h : Held pod id vmid post t) (hk : q.key = pod.key) (hr : q.ref = pod.ref)
    (state : LifecycleState) (message : String) :
    Held pod id vmid post (t.applyLifecycleLocked (t.object q) state message).1 := by
  obtain ⟨hget, l, i, hobj⟩ := h.object hk hr
  have hkey : (t.object q).key = pod.key := by rw [hobj]
  cases href : t.refusesLifecycle (t.object q)
      ⟨state, t.stampedGeneration (t.object q), message⟩ with
  | true =>
    rw [applyLifecycleLocked_of_refused _ _ _ _ href]
    exact h
  | false =>
    rw [applyLifecycleLocked_of_accepted _ _ _ _ href, hkey, hget]
    have hw := h.write (q := q) (f := LifecycleStatus.apply
      ⟨state, t.stampedGeneration (t.object q), message⟩) rfl hk hr fun l i => ⟨_, _, rfl⟩
    exact hw.of_eq rfl rfl rfl

theorem Held.not_superseded (h : Held pod id vmid post t) : t.supersededLocked pod.key pod.uid = false := by
  obtain ⟨l, i, hp⟩ := h.reads
  simp only [supersededLocked, hp, Option.any_some, bne_self_eq_false]

/- A write through the pointer of the call. -/
theorem Held.mutate {vmid' : VMID} {post' : PostCloneState} (h : Held pod id vmid post t)
    (hk : q.key = pod.key) (hr : q.ref = pod.ref) {f : Pod → Pod}
    (hf : ∀ l i, ∃ l' i', f { pod with lifecycle := l, ip := i, vmid := vmid, postClone := post } =
      { pod with lifecycle := l', ip := i', vmid := vmid', postClone := post' }) :
    Held pod id vmid' post' (t.mutatePod (t.object q) f) := by
  obtain ⟨hget, l, i, hobj⟩ := h.object hk hr
  have hkey : (t.object q).key = pod.key := by rw [hobj]
  refine h.write (f := f) ?_ hk hr hf
  simp only [mutatePod, hkey, hget, beq_self_eq_true, if_true]

theorem mutatePod_intent (t : Tables) (q : Pod) (f : Pod → Pod) :
    (t.mutatePod q f).lifecycleIntent = t.lifecycleIntent := by
  unfold mutatePod
  repeat' split
  all_goals rfl

theorem clearRuntimeAnnotations_intent (t : Tables) (q : Pod) :
    (t.clearRuntimeAnnotations q).lifecycleIntent = t.lifecycleIntent := by
  unfold clearRuntimeAnnotations
  split
  · rfl
  · exact mutatePod_intent _ _ _

theorem applyVMRuntime_intent (t : Tables) (q : Pod) (vmid : VMID) (ip : String) :
    (t.applyVMRuntime q vmid ip).1.lifecycleIntent = t.lifecycleIntent := by
  unfold applyVMRuntime
  split
  · rfl
  · exact mutatePod_intent _ _ _

theorem updateTrackedVM_intent (t : Tables) (key : Key) (id : VMID) (m : VMMutation) :
    (t.updateTrackedVM key id m).1.lifecycleIntent = t.lifecycleIntent := by
  unfold updateTrackedVM
  repeat' split
  all_goals rfl

theorem Held.clear (h : Held pod id vmid post t) (hk : q.key = pod.key) (hr : q.ref = pod.ref) :
    Held pod id "" .absent (t.clearRuntimeAnnotations (t.object q)) := by
  obtain ⟨-, l, i, hobj⟩ := h.object hk hr
  have hsup : t.supersededLocked (t.object q).key (t.object q).uid = false := by
    rw [hobj]
    exact h.not_superseded
  unfold clearRuntimeAnnotations
  rw [hsup]
  exact h.mutate hk hr fun l i => ⟨l, "", rfl⟩

theorem Held.stamp (h : Held pod id vmid post t) (hk : q.key = pod.key) (hr : q.ref = pod.ref)
    (vmid' : VMID) (ip : String) : (t.applyVMRuntime (t.object q) vmid' ip).2 = true ∧
      Held pod id vmid' post (t.applyVMRuntime (t.object q) vmid' ip).1 := by
  obtain ⟨-, l, i, hobj⟩ := h.object hk hr
  have hsup : t.supersededLocked (t.object q).key (t.object q).uid = false := by
    rw [hobj]
    exact h.not_superseded
  unfold applyVMRuntime
  rw [hsup]
  exact ⟨rfl, h.mutate hk hr fun l i => ⟨l, ip, rfl⟩⟩

theorem Held.updateVM (h : Held pod id vmid post t) (m : VMMutation) :
    Held pod id vmid post (t.updateTrackedVM pod.key id m).1 := by
  obtain ⟨u, hu, hid⟩ := h.vm
  unfold updateTrackedVM
  rw [hu]
  dsimp only
  rw [hid, bne_self_eq_false, if_neg Bool.false_ne_true]
  refine ⟨h.reads, ⟨_, GoMap.get_set_self _ _ _, ?_⟩, h.free⟩
  exact (VMMutation_apply_id m u).trans hid

theorem Held.bind (h : Held pod id vmid post t) (hk : q.key = pod.key) (hr : q.ref = pod.ref) {v : VM}
    (hv : v.id = id) : (t.trackPodIncarnation (t.object q) v).2 = true ∧
      Held pod id vmid post (t.trackPodIncarnation (t.object q) v).1 := by
  obtain ⟨hget, l, i, hobj⟩ := h.object hk hr
  have hkey : (t.object q).key = pod.key := by rw [hobj]
  have hsup : (t.deletingLocked (t.object q).key ||
      t.supersededLocked (t.object q).key (t.object q).uid) = false := by
    rw [hobj, Bool.or_eq_false_iff]
    exact ⟨h.free, h.not_superseded⟩
  have heq : t.trackPodIncarnation (t.object q) v = (t.trackPodLocked (t.object q) (some v), true) := by
    unfold trackPodIncarnation
    rw [if_neg (by rw [hsup]; decide)]
  rw [heq]
  refine ⟨rfl, ?_, ?_, ?_⟩
  · obtain ⟨l', hl'⟩ := t.trackPodLocked_pods (t.object q) (some v)
    refine ⟨l', i, ?_⟩
    rw [hl', if_pos hkey.symm, hobj]
  · refine ⟨v, ?_, hv⟩
    rw [trackPodLocked_vmsByPod, if_pos hkey.symm, Option.some_or]
  · have hd := t.trackPodLocked_deleting (t.object q) (some v)
    exact (congrArg (fun m => m.has pod.key) hd).trans h.free

/-! ### The lifecycle intent -/

theorem Held.generation (h : Held pod id vmid post t) (hk : q.key = pod.key) (hr : q.ref = pod.ref) :
    t.stampedGeneration (t.object q) = pod.generation := by
  obtain ⟨hget, l, i, hobj⟩ := h.object hk hr
  have hkey : (t.object q).key = pod.key := by rw [hobj]
  simp only [stampedGeneration, hkey, hget, bne_self_eq_false, Bool.false_eq_true, if_false, max_self]
  rw [hobj]

/- A failure, and the mark of a hibernate, are refused only by an intent of a later generation. -/
theorem Held.refuses_iff (h : Held pod id vmid post t) (hk : q.key = pod.key) (hr : q.ref = pod.ref)
    {state : LifecycleState} (hstate : state = .hibernating ∨ state = .failed) (message : String) :
    t.refusesLifecycle (t.object q) ⟨state, pod.generation, message⟩ = true ↔ ¬t.Behind pod := by
  obtain ⟨hget, l, i, hobj⟩ := h.object hk hr
  have hkey : (t.object q).key = pod.key := by rw [hobj]
  have huid : (t.object q).uid = pod.uid := by rw [hobj]
  have hhas : t.pods.has pod.key = true := by rw [GoMap.has, hget]; rfl
  unfold refusesLifecycle Behind
  rw [hkey, huid, h.not_superseded, Bool.false_or]
  cases hcur : t.lifecycleIntent.get pod.key with
  | none => simp
  | some cur =>
    by_cases hu : cur.uid = pod.uid
    · rcases hstate with rfl | rfl <;> simp [hu]
    · simp [hu, hhas]

theorem Held.written (h : Held pod id vmid post t) (hk : q.key = pod.key) (hr : q.ref = pod.ref)
    {state : LifecycleState} (hstate : state = .hibernating ∨ state = .failed) (message : String)
    (hb : t.Behind pod) :
    (t.applyLifecycleLocked (t.object q) state message).1.lifecycleIntent.get pod.key =
      some ⟨pod.uid, ⟨state, pod.generation, message⟩, none⟩ := by
  obtain ⟨-, l, i, hobj⟩ := h.object hk hr
  have hkey : (t.object q).key = pod.key := by rw [hobj]
  have huid : (t.object q).uid = pod.uid := by rw [hobj]
  have href : t.refusesLifecycle (t.object q) ⟨state, t.stampedGeneration (t.object q), message⟩ = false := by
    rw [h.generation hk hr, ← Bool.not_eq_true, h.refuses_iff hk hr hstate]
    exact not_not.mpr hb
  rw [applyLifecycleLocked_of_accepted _ _ _ _ href, h.generation hk hr, hkey, huid]
  exact GoMap.get_set_self _ _ _

theorem Held.refused (h : Held pod id vmid post t) (hk : q.key = pod.key) (hr : q.ref = pod.ref)
    {state : LifecycleState} (hstate : state = .hibernating ∨ state = .failed) (message : String)
    (hb : ¬t.Behind pod) : (t.applyLifecycleLocked (t.object q) state message).1 = t := by
  have href : t.refusesLifecycle (t.object q) ⟨state, t.stampedGeneration (t.object q), message⟩ = true := by
    rw [h.generation hk hr, h.refuses_iff hk hr hstate]
    exact hb
  rw [applyLifecycleLocked_of_refused _ _ _ _ href]

/-- Since `t₀` the intent has been written at the generation of the pod, or not at all. -/
structure Tables.Since (pod : Pod) (t₀ t : Tables) : Prop where
  behind : t₀.Behind pod → t.Behind pod
  ahead : ¬t₀.Behind pod → t.lifecycleIntent.get pod.key = t₀.lifecycleIntent.get pod.key

theorem Tables.Since.of_eq {t₀ t' : Tables} (h : Since pod t₀ t)
    (heq : t'.lifecycleIntent.get pod.key = t.lifecycleIntent.get pod.key) : Since pod t₀ t' := by
  refine ⟨fun hb cur hcur => h.behind hb cur (heq ▸ hcur), fun hb => heq.trans (h.ahead hb)⟩

theorem Tables.Since.not_behind {t₀ : Tables} (h : Since pod t₀ t) (hb : ¬t₀.Behind pod) :
    ¬t.Behind pod := by
  unfold Behind at hb ⊢
  rw [h.ahead hb]
  exact hb

theorem Held.lifecycle_since {t₀ : Tables} (h : Held pod id vmid post t) (hs : Since pod t₀ t)
    (hk : q.key = pod.key) (hr : q.ref = pod.ref)
    {state : LifecycleState} (hstate : state = .hibernating ∨ state = .failed) (message : String) :
    Since pod t₀ (t.applyLifecycleLocked (t.object q) state message).1 := by
  refine ⟨fun hb cur hcur _ => ?_, fun hb => ?_⟩
  · rw [h.written hk hr hstate message (hs.behind hb)] at hcur
    cases hcur
    exact le_refl _
  · rw [h.refused hk hr hstate message (hs.not_behind hb)]
    exact hs.ahead hb

theorem Held.bind_since {t₀ : Tables} (h : Held pod id vmid post t) (hs : Since pod t₀ t)
    (hk : q.key = pod.key) (hr : q.ref = pod.ref) (v : VM) :
    Since pod t₀ (t.trackPodIncarnation (t.object q) v).1 := by
  obtain ⟨-, l, i, hobj⟩ := h.object hk hr
  have hkey : (t.object q).key = pod.key := by rw [hobj]
  have huid : (t.object q).uid = pod.uid := by rw [hobj]
  unfold trackPodIncarnation
  split
  · exact hs.of_eq (by rw [indexOrphanByNameLocked_lifecycleIntent])
  · have hintent := t.trackPodLocked_intent pod.key (t.object q) (some v)
    rw [if_pos hkey.symm, huid] at hintent
    refine ⟨fun hb cur hcur hu => ?_, fun hb => ?_⟩
    · rw [hintent] at hcur
      exact hs.behind hb cur (Option.filter_eq_some_iff.mp hcur).1 hu
    · -- an intent that is ahead is one of this incarnation
      have hnot := hs.not_behind hb
      unfold Behind at hnot
      push Not at hnot
      obtain ⟨cur, hcur, hu, -⟩ := hnot
      rw [hintent, ← hs.ahead hb, hcur, Option.filter_some, hu, beq_self_eq_true, if_pos rfl]

end Held

/-! ### The invariant of a call that has not destroyed its VM -/

theorem failureMessage_begins (what name err : String) :
    hasHibernateFailurePrefix (Hib.message what name err) = true := by
  unfold hasHibernateFailurePrefix Hib.message
  rw [String.toList_append, List.isPrefixOf_iff_prefix]
  exact List.prefix_append _ _

namespace HibPC

def isPatch : HibPC → Bool
  | .patch _ _ => true
  | _ => false

/-- Before the failure is recorded, and not between the two writes of `applyVMRuntime`. -/
def plain (pc : HibPC) : Bool := !pc.isPatch && Nat.ble 2 pc.rank

/-- The error a call is going to fail with. -/
def error : HibPC → Option String
  | .renewAfterDrop msg | .deleteManifest msg | .addNIC msg | .inspectNIC msg | .refreshNIC msg _
  | .bind msg _ | .stamp msg _ | .patch msg _ | .detach msg _ | .renew msg | .fail msg => some msg
  | _ => none

/-- What the notes say at each point; the points after the VM is removed are not among them. -/
def Phase (cleared : Option Bool) (rolledBack : Bool) : HibPC → Prop
  | .startHibernate | .markHibernating | .release | .dropNIC | .renewAfterDrop _ | .save | .push | .clear =>
    cleared = none ∧ rolledBack = false
  | .remove | .deleteManifest _ | .addNIC _ | .inspectNIC _ | .refreshNIC _ _ | .bind _ _ | .stamp _ _
  | .patch _ _ => rolledBack = false
  | .renew _ | .fail _ | .finishHibernate | .schedule | .done => cleared.isSome = true → rolledBack = true
  | .detach _ _ | .releaseLeases | .clearAgain | .forgetVM | .markHibernated => False

/-- The call has removed the VM. -/
def removed : HibPC → Bool
  | .releaseLeases | .clearAgain | .forgetVM | .markHibernated | .finishHibernate | .schedule | .done => true
  | _ => false

end HibPC

namespace HibRun

def memoryVMID (s₀ s : HibRun) : VMID :=
  if s.rolledBack || s.hib.pc.isPatch then s₀.hib.v.id
  else if s.cleared.isSome then "" else s₀.hib.pod.vmid

def memoryPostClone (s₀ s : HibRun) : PostCloneState :=
  if s.cleared.isSome then .absent else s₀.hib.pod.postClone

structure Inv (s₀ s : HibRun) : Prop where
  key : s.hib.pod.key = s₀.hib.pod.key
  ref : s.hib.pod.ref = s₀.hib.pod.ref
  uid : s.hib.pod.uid = s₀.hib.pod.uid
  v : s.hib.v = s₀.hib.v
  held : Held s₀.hib.pod s₀.hib.v.id (s₀.memoryVMID s) (s₀.memoryPostClone s) s.world.tables
  since : Since s₀.hib.pod s₀.world.tables s.world.tables
  vmid : s.api.vmid = if s.rolledBack then s₀.hib.v.id else if s.cleared = some true then ""
    else s₀.api.vmid
  postClone : s.api.postClone = if s.cleared = some true then .absent else s₀.api.postClone
  phase : s.hib.pc.Phase s.cleared s.rolledBack
  error : ∀ msg, s.hib.pc.error = some msg → hasHibernateFailurePrefix msg = true
  record : ∀ u, s.hib.pc.vm = some u → u.id = s₀.hib.v.id
  behind : s.hib.pc.rank ≤ 1 → s₀.world.tables.Behind s₀.hib.pod →
    s.world.tables.HibernateFailed s₀.hib.pod
  flag : s.hib.pc.rank = 0 → s.world.tables.hibernating.has s₀.hib.pod.key = false
  failure : 2 ≤ s.hib.pc.rank → s.failure = none

theorem Begins.inv {s : HibRun} (h : s.Begins) : Inv s s := by
  have hvmid : s.memoryVMID s = s.hib.pod.vmid := by
    simp only [memoryVMID, h.rolledBack, h.pc, h.cleared, HibPC.isPatch, Bool.or_self, Bool.false_eq_true,
      if_false, Option.isSome_none]
  have hpost : s.memoryPostClone s = s.hib.pod.postClone := by
    simp only [memoryPostClone, h.cleared, Option.isSome_none, Bool.false_eq_true, if_false]
  refine ⟨rfl, rfl, rfl, rfl, ?_, ⟨id, fun _ => rfl⟩, ?_, ?_, ?_, ?_, ?_, ?_, ?_, fun _ => h.failure⟩
  · rw [hvmid, hpost]
    exact ⟨⟨_, _, h.tracked⟩, ⟨_, h.bound, rfl⟩, h.free⟩
  · rw [h.rolledBack, h.cleared]
    rfl
  · rw [h.cleared]
    rfl
  · rw [h.pc]
    exact ⟨h.cleared, h.rolledBack⟩
  · rw [h.pc]
    rintro _ ⟨⟩
  · rw [h.pc]
    rintro _ ⟨⟩
  · rw [h.pc]
    intro hle
    exact absurd hle (by decide)
  · rw [h.pc]
    rintro ⟨⟩

/-! ### The steps -/

section Steps
variable {s₀ s s' : HibRun} {r : Reply} {w : World} {pc : HibPC} {msg : String}

/-- The call goes on at `pc` with its notes as they are. -/
def goto (s : HibRun) (w : World) (pc : HibPC) : HibRun :=
  { s with world := w, hib := { s.now with pc := pc } }

theorem Inv.now (h : Inv s₀ s) : s.now.pod.key = s₀.hib.pod.key ∧ s.now.pod.ref = s₀.hib.pod.ref ∧
    s.now.pod.uid = s₀.hib.pod.uid := by
  obtain ⟨-, l, i, hobj⟩ := h.held.object h.key h.ref
  have hpod : s.now.pod = _ := hobj
  rw [hpod]
  exact ⟨rfl, rfl, rfl⟩

theorem Inv.goto (h : Inv s₀ s)
    (hheld : Held s₀.hib.pod s₀.hib.v.id (s₀.memoryVMID s) (s₀.memoryPostClone s) w.tables)
    (hsince : Since s₀.hib.pod s₀.world.tables w.tables)
    (hold : s.hib.pc.plain = true) (hnew : pc.plain = true) (hphase : pc.Phase s.cleared s.rolledBack)
    (herror : ∀ msg, pc.error = some msg → hasHibernateFailurePrefix msg = true)
    (hrecord : ∀ u, pc.vm = some u → u.id = s₀.hib.v.id) : Inv s₀ (s.goto w pc) := by
  obtain ⟨hkey, href, huid⟩ := h.now
  simp only [HibPC.plain, Bool.and_eq_true, Bool.not_eq_true', Nat.ble_eq] at hold hnew
  have hpatch : (s.goto w pc).hib.pc.isPatch = s.hib.pc.isPatch := hnew.1.trans hold.1.symm
  have hmem : s₀.memoryVMID (s.goto w pc) = s₀.memoryVMID s := by
    unfold memoryVMID
    rw [hpatch]
    rfl
  refine ⟨hkey, href, huid, h.v, by rw [hmem]; exact hheld, hsince, h.vmid, h.postClone, hphase, herror,
    hrecord, fun hle => ?_, fun hzero => ?_, fun _ => h.failure hold.2⟩
  · exact absurd hle (Nat.not_le_of_lt hnew.2)
  · exact absurd (hzero ▸ hnew.2) (show ¬2 ≤ 0 by omega)

/- A step that leaves the tables alone. -/
theorem Inv.same (h : Inv s₀ s) (ht : w.tables = s.world.tables) (hold : s.hib.pc.plain = true)
    (hnew : pc.plain = true) (hphase : pc.Phase s.cleared s.rolledBack)
    (herror : ∀ msg, pc.error = some msg → hasHibernateFailurePrefix msg = true)
    (hrecord : ∀ u, pc.vm = some u → u.id = s₀.hib.v.id) : Inv s₀ (s.goto w pc) :=
  h.goto (by rw [ht]; exact h.held) (by rw [ht]; exact h.since) hold hnew hphase herror hrecord

theorem Inv.rollback (h : Inv s₀ s) (ht : w.tables = s.world.tables) (hold : s.hib.pc.plain = true)
    (hback : s.rolledBack = false) (hmsg : hasHibernateFailurePrefix msg = true) :
    Inv s₀ (s.goto w (s.now.rollback msg)) := by
  have herror : ∀ m, some msg = some m → hasHibernateFailurePrefix m = true := by
    rintro _ ⟨⟩
    exact hmsg
  unfold Hib.rollback
  split
  · exact h.same ht hold rfl hback herror (by rintro _ ⟨⟩)
  · refine h.same ht hold rfl hback herror ?_
    rintro _ ⟨⟩
    exact congrArg VM.id h.v

/-- The VM has been removed, or is about to be forgotten: the call has not failed. -/
def Left (s : HibRun) : Prop := s.hib.pc.removed = true ∧ s.failure = none

theorem left_step (h : s.Left) (hs : s.step r = some s') : s'.Left := by
  obtain ⟨hpc, hf⟩ := h
  obtain ⟨x, hx, rfl⟩ := Option.map_eq_some_iff.mp hs
  have hnow : s.now.pc = s.hib.pc := rfl
  unfold Hib.step at hx
  rw [hnow] at hx
  cases hpc' : s.hib.pc with
  | releaseLeases | finishHibernate =>
    rw [hpc'] at hx
    cases hx
    refine ⟨?_, hf⟩
    dsimp only
    split <;> rfl
  | clearAgain | forgetVM | markHibernated =>
    rw [hpc'] at hx
    cases hx
    exact ⟨rfl, hf⟩
  | schedule | done =>
    rw [hpc'] at hx
    cases hx
  | _ =>
    rw [hpc'] at hpc
    cases hpc

theorem Inv.clear (h : Inv s₀ s) (hpc : s.hib.pc = .clear) (hs : s.step r = some s') : Inv s₀ s' := by
  obtain ⟨hkey, href, huid⟩ := h.now
  have hphase := h.phase
  rw [hpc] at hphase
  obtain ⟨hcleared, hback⟩ := hphase
  have hsup : s.world.tables.supersededLocked s.hib.pod.key s.hib.pod.uid = false := by
    rw [h.key, h.uid]
    exact h.held.not_superseded
  have hfree : s.failure = none := h.failure (by rw [hpc]; exact Nat.le_of_ble_eq_true rfl)
  have hvmid := h.vmid
  have hpost := h.postClone
  rw [hback, hcleared] at hvmid
  rw [hcleared] at hpost
  simp only [step, Hib.step, show s.now.pc = .clear from hpc, hpc, hsup, Option.map_some, Bool.false_or,
    Bool.not_false, Bool.true_and] at hs
  cases hs
  refine ⟨hkey, href, huid, h.v, ?_, h.since.of_eq ?_, ?_, ?_, hback, (by rintro _ ⟨⟩), (by rintro _ ⟨⟩),
    fun hle => absurd hle (Nat.not_le_of_lt (Nat.le_of_ble_eq_true rfl)), (by rintro ⟨⟩), fun _ => hfree⟩
  · have hheld := h.held.clear h.key h.ref
    simp only [memoryVMID, memoryPostClone, hback, HibPC.isPatch, Bool.or_self, Bool.false_eq_true, if_false,
      Option.isSome_some, if_true]
    exact hheld
  · exact congrArg (fun m => m.get s₀.hib.pod.key) (clearRuntimeAnnotations_intent s.world.tables s.now.pod)
  · cases hl : r.lands <;> simp [hback, hvmid]
  · cases hl : r.lands <;> simp [hpost]

theorem Inv.bind (h : Inv s₀ s) {v : VM} (hpc : s.hib.pc = .bind msg v) (hs : s.step r = some s') :
    Inv s₀ s' := by
  have hphase := h.phase
  have herror := h.error msg (by rw [hpc]; rfl)
  have hv := h.record v (by rw [hpc]; rfl)
  obtain ⟨htrue, hheld⟩ := h.held.bind h.key h.ref hv
  have hsince := h.held.bind_since h.since h.key h.ref v
  rw [hpc] at hphase
  simp only [step, Hib.step, show s.now.pc = .bind msg v from hpc, hpc] at hs
  split at hs
  next t heq =>
    have heq' : s.world.tables.trackPodIncarnation (s.world.tables.object s.hib.pod) v = (t, true) := heq
    rw [heq'] at hheld hsince
    cases hs
    show Inv s₀ (s.goto { s.world with tables := t } (.stamp msg v))
    refine h.goto hheld hsince (by rw [hpc]; rfl) rfl hphase ?_ ?_
    · rintro _ ⟨⟩
      exact herror
    · rintro _ ⟨⟩
      exact hv
  next t heq =>
    have heq' : s.world.tables.trackPodIncarnation (s.world.tables.object s.hib.pod) v = (t, false) := heq
    rw [heq'] at htrue
    cases htrue

theorem Inv.stamp (h : Inv s₀ s) {v : VM} (hpc : s.hib.pc = .stamp msg v) (hs : s.step r = some s') :
    Inv s₀ s' := by
  obtain ⟨hkey, href, huid⟩ := h.now
  have hback : s.rolledBack = false := by
    have hphase := h.phase
    rw [hpc] at hphase
    exact hphase
  have herror := h.error msg (by rw [hpc]; rfl)
  have hv := h.record v (by rw [hpc]; rfl)
  have hfree := h.failure (by rw [hpc]; exact Nat.le_of_ble_eq_true rfl)
  obtain ⟨htrue, hheld⟩ := h.held.stamp h.key h.ref v.id v.ip
  have hintent := applyVMRuntime_intent s.world.tables s.now.pod v.id v.ip
  simp only [step, Hib.step, show s.now.pc = .stamp msg v from hpc, hpc] at hs
  split at hs
  next t heq =>
    have heq' : s.world.tables.applyVMRuntime (s.world.tables.object s.hib.pod) v.id v.ip = (t, true) := heq
    rw [heq', hv] at hheld
    rw [heq] at hintent
    cases hs
    show Inv s₀ (s.goto { s.world with tables := t } (.patch msg v))
    refine ⟨hkey, href, huid, h.v, ?_, h.since.of_eq (congrArg (fun m => m.get s₀.hib.pod.key) hintent),
      h.vmid, h.postClone, hback, ?_, ?_,
      fun hle => absurd hle (Nat.not_le_of_lt (Nat.le_of_ble_eq_true rfl)), (by rintro ⟨⟩), fun _ => hfree⟩
    · have hmem : s₀.memoryVMID (s.goto { s.world with tables := t } (.patch msg v)) = s₀.hib.v.id := by
        simp only [memoryVMID, HibRun.goto, HibPC.isPatch, Bool.or_true, if_true]
      rw [hmem]
      exact hheld
    · rintro _ ⟨⟩
      exact herror
    · rintro _ ⟨⟩
      exact hv
  next t heq =>
    have heq' : s.world.tables.applyVMRuntime (s.world.tables.object s.hib.pod) v.id v.ip = (t, false) := heq
    rw [heq'] at htrue
    cases htrue

theorem Inv.patch (h : Inv s₀ s) {v : VM} (hpc : s.hib.pc = .patch msg v) (hs : s.step .ok = some s') :
    Inv s₀ s' := by
  obtain ⟨hkey, href, huid⟩ := h.now
  have herror := h.error msg (by rw [hpc]; rfl)
  have hv := h.record v (by rw [hpc]; rfl)
  have hfree := h.failure (by rw [hpc]; exact Nat.le_of_ble_eq_true rfl)
  have hmem : s₀.memoryVMID s = s₀.hib.v.id := by
    simp only [memoryVMID, hpc, HibPC.isPatch, Bool.or_true, if_true]
  have hheld := h.held
  rw [hmem] at hheld
  simp only [step, Hib.step, show s.now.pc = .patch msg v from hpc, hpc, reduceCtorEq, if_false,
    Hib.afterRollback] at hs
  cases hs
  have hnext : ∀ pc : HibPC, pc = .renew msg ∨ pc = .fail msg →
      Inv s₀ { s with
        hib := { s.now with pc := pc }, api := { s.api with vmid := v.id, ip := v.ip }, rolledBack := true } := by
    intro pc hpc'
    refine ⟨hkey, href, huid, h.v, ?_, h.since, ?_, h.postClone, ?_, ?_, ?_, ?_, ?_, fun _ => hfree⟩
    · simp only [memoryVMID, Bool.true_or, if_true]
      exact hheld
    · simp only [if_true]
      exact hv
    · rcases hpc' with rfl | rfl <;> exact fun _ => rfl
    · rcases hpc' with rfl | rfl <;> rintro _ ⟨⟩ <;> exact herror
    · rcases hpc' with rfl | rfl <;> rintro _ ⟨⟩
    · rcases hpc' with rfl | rfl <;> exact fun hle => absurd hle (Nat.not_le_of_lt (Nat.le_of_ble_eq_true rfl))
    · rcases hpc' with rfl | rfl <;> rintro ⟨⟩
  refine hnext _ ?_
  split
  · exact Or.inl rfl
  · exact Or.inr rfl

theorem Inv.fail (h : Inv s₀ s) (hpc : s.hib.pc = .fail msg) (hs : s.step r = some s') : Inv s₀ s' := by
  obtain ⟨hkey, href, huid⟩ := h.now
  have herror := h.error msg (by rw [hpc]; rfl)
  have hphase := h.phase
  rw [hpc] at hphase
  have hheld := h.held.lifecycle h.key h.ref .failed msg
  have hsince := h.held.lifecycle_since h.since h.key h.ref (Or.inr rfl) msg
  simp only [step, Hib.step, show s.now.pc = .fail msg from hpc, hpc] at hs
  cases hs
  refine ⟨hkey, href, huid, h.v, ?_, hsince, h.vmid, h.postClone, hphase, (by rintro _ ⟨⟩), (by rintro _ ⟨⟩),
    fun _ hb => ?_, (by rintro ⟨⟩), fun hle => absurd hle (show ¬2 ≤ 1 by omega)⟩
  · have hmem : s₀.memoryVMID s = if s.rolledBack then s₀.hib.v.id
        else if s.cleared.isSome then "" else s₀.hib.pod.vmid := by
      simp only [memoryVMID, hpc, HibPC.isPatch, Bool.or_false]
    rw [hmem] at hheld
    simp only [memoryVMID, HibPC.isPatch, Bool.or_false]
    exact hheld
  · exact ⟨_, h.held.written h.key h.ref (Or.inr rfl) msg (h.since.behind hb), rfl, rfl, herror⟩

theorem Inv.finish (h : Inv s₀ s) (hpc : s.hib.pc = .finishHibernate) (hs : s.step r = some s') :
    Inv s₀ s' := by
  obtain ⟨hkey, href, huid⟩ := h.now
  have hphase := h.phase
  have hbehind := h.behind (by rw [hpc]; exact Nat.le_refl 1)
  rw [hpc] at hphase
  have hmem : s₀.memoryVMID s = if s.rolledBack then s₀.hib.v.id
      else if s.cleared.isSome then "" else s₀.hib.pod.vmid := by
    simp only [memoryVMID, hpc, HibPC.isPatch, Bool.or_false]
  have hheld := h.held
  rw [hmem] at hheld
  have hdel : (s.world.tables.finishHibernate s₀.hib.pod.key).1.hibernating.has s₀.hib.pod.key = false := by
    simp [finishHibernate, GoMap.has_del]
  simp only [step, Hib.step, show s.now.pc = .finishHibernate from hpc, hpc, hkey] at hs
  cases hs
  have hnext : ∀ pc : HibPC, pc = .schedule ∨ pc = .done →
      Inv s₀ (s.goto { s.world with tables := (s.world.tables.finishHibernate s₀.hib.pod.key).1 } pc) := by
    intro pc hpc'
    have hpatch : pc.isPatch = false := by rcases hpc' with rfl | rfl <;> rfl
    refine ⟨hkey, href, huid, h.v, ?_, h.since.of_eq rfl, h.vmid, h.postClone, ?_, ?_, ?_, fun _ hb => ?_,
      fun _ => hdel, ?_⟩
    · simp only [memoryVMID, HibRun.goto, hpatch, Bool.or_false]
      exact hheld.of_eq rfl rfl rfl
    · rcases hpc' with rfl | rfl <;> exact hphase
    · rcases hpc' with rfl | rfl <;> rintro _ ⟨⟩
    · rcases hpc' with rfl | rfl <;> rintro _ ⟨⟩
    · exact hbehind hb
    · rcases hpc' with rfl | rfl <;> exact fun hle => absurd hle (show ¬2 ≤ 0 by omega)
  refine hnext _ ?_
  split
  · exact Or.inl rfl
  · exact Or.inr rfl

theorem Inv.refresh (h : Inv s₀ s) {fresh : Option VM} (hpc : s.hib.pc = .refreshNIC msg fresh)
    (hs : s.step r = some s') : Inv s₀ s' := by
  obtain ⟨hkey, -, -⟩ := h.now
  have hback : s.rolledBack = false := by
    have hphase := h.phase
    rw [hpc] at hphase
    exact hphase
  have herror := h.error msg (by rw [hpc]; rfl)
  have hv : s.now.v = s₀.hib.v := h.v
  have hheld := h.held.updateVM (.rolledBackNIC fresh)
  have hintent := updateTrackedVM_intent s.world.tables s₀.hib.pod.key s₀.hib.v.id (.rolledBackNIC fresh)
  simp only [step, Hib.step, show s.now.pc = .refreshNIC msg fresh from hpc, hpc, hkey, hv] at hs
  cases hs
  refine h.goto hheld (h.since.of_eq (congrArg (fun m => m.get s₀.hib.pod.key) hintent)) (by rw [hpc]; rfl)
    rfl hback ?_ (fun u hu => ?_)
  · rintro _ ⟨⟩
    exact herror
  · have hu := (Option.some.inj hu).symm
    cases hup : (s.world.tables.updateTrackedVM s₀.hib.pod.key s₀.hib.v.id (.rolledBackNIC fresh)).2 with
    | none =>
      rw [hup] at hu
      rw [hu]
      rfl
    | some x =>
      rw [hup] at hu
      rw [hu]
      exact Hib.updateTrackedVM_id hup

theorem Inv.step (h : Inv s₀ s) (hg : RollbackSucceeds s r) (hs : s.step r = some s') :
    Inv s₀ s' ∨ s'.Left := by
  have hnow : s.now.pc = s.hib.pc := rfl
  have hphase := h.phase
  have hrank : s.hib.pc.rank ≠ 0 := by
    intro hzero
    have hlt := HibRun.step_rank hs
    omega
  have hmessage : ∀ what name err msg, some (Hib.message what name err) = some msg →
      hasHibernateFailurePrefix msg = true := by
    rintro what name err _ ⟨⟩
    exact failureMessage_begins what name err
  cases hpc : s.hib.pc with
  | clear => exact Or.inl (h.clear hpc hs)
  | bind msg v => exact Or.inl (h.bind hpc hs)
  | stamp msg v => exact Or.inl (h.stamp hpc hs)
  | patch msg v =>
    have hok : r = .ok := by simpa only [RollbackSucceeds, hpc, HibPC.rollbackSucceeds, beq_iff_eq] using hg
    subst hok
    exact Or.inl (h.patch hpc hs)
  | fail msg => exact Or.inl (h.fail hpc hs)
  | finishHibernate => exact Or.inl (h.finish hpc hs)
  | refreshNIC msg fresh => exact Or.inl (h.refresh hpc hs)
  | detach | releaseLeases | clearAgain | forgetVM | markHibernated =>
    rw [hpc] at hphase
    exact hphase.elim
  | schedule | done =>
    rw [hpc] at hrank
    exact absurd rfl hrank
  | startHibernate =>
    rw [hpc] at hphase
    simp only [HibRun.step, Hib.step, hnow, hpc] at hs
    cases hs
    exact Or.inl (h.goto (h.held.of_eq rfl rfl rfl) (h.since.of_eq rfl) (by rw [hpc]; rfl) rfl hphase
      (by rintro _ ⟨⟩) (by rintro _ ⟨⟩))
  | markHibernating =>
    rw [hpc] at hphase
    have hheld := h.held.lifecycle h.key h.ref .hibernating ""
    have hsince := h.held.lifecycle_since h.since h.key h.ref (Or.inl rfl) ""
    simp only [HibRun.step, Hib.step, hnow, hpc] at hs
    cases hs
    refine Or.inl (h.goto hheld hsince (by rw [hpc]; rfl) ?_ ?_ ?_ ?_) <;> split <;>
      first | rfl | exact hphase | (rintro _ ⟨⟩)
  | release =>
    rw [hpc] at hphase
    simp only [HibRun.step, Hib.step, hnow, hpc] at hs
    cases hs
    exact Or.inl (h.same rfl (by rw [hpc]; rfl) rfl hphase (by rintro _ ⟨⟩) (by rintro _ ⟨⟩))
  | dropNIC =>
    rw [hpc] at hphase
    have ht := s.world.netResize_tables s.now.v.id r []
    simp only [HibRun.step, Hib.step, hnow, hpc] at hs
    split at hs <;> rename_i heq <;> rw [heq] at ht <;> cases hs
    · exact Or.inl (h.same ht (by rw [hpc]; rfl) rfl hphase (by rintro _ ⟨⟩) (by rintro _ ⟨⟩))
    · exact Or.inl (h.same ht (by rw [hpc]; rfl) rfl hphase (hmessage _ _ _) (by rintro _ ⟨⟩))
  | renewAfterDrop msg =>
    have herror := h.error msg (by rw [hpc]; rfl)
    rw [hpc] at hphase
    simp only [HibRun.step, Hib.step, hnow, hpc] at hs
    cases hs
    refine Or.inl (h.same rfl (by rw [hpc]; rfl) rfl ?_ (by rintro _ ⟨⟩; exact herror) (by rintro _ ⟨⟩))
    intro hsome
    rw [hphase.1] at hsome
    cases hsome
  | save =>
    rw [hpc] at hphase
    have ht := s.world.snapshotSave_tables s.now.v.id s.now.v.name r
    simp only [HibRun.step, Hib.step, hnow, hpc] at hs
    split at hs <;> rename_i heq <;> rw [heq] at ht <;> cases hs
    · refine Or.inl (h.same ht (by rw [hpc]; rfl) ?_ ?_ ?_ ?_) <;> split <;>
        first | rfl | exact hphase | (rintro _ ⟨⟩)
    · exact Or.inl (h.rollback ht (by rw [hpc]; rfl) hphase.2 (failureMessage_begins _ _ _))
  | push =>
    rw [hpc] at hphase
    have ht := s.world.pushSnapshot_tables s.now.v.name r s.now.v.name
    simp only [HibRun.step, Hib.step, hnow, hpc] at hs
    split at hs <;> rename_i heq <;> rw [heq] at ht <;> cases hs
    · exact Or.inl (h.same ht (by rw [hpc]; rfl) rfl hphase (by rintro _ ⟨⟩) (by rintro _ ⟨⟩))
    · exact Or.inl (h.rollback ht (by rw [hpc]; rfl) hphase.2 (failureMessage_begins _ _ _))
  | remove =>
    have hfree := h.failure (by rw [hpc]; exact Nat.le_of_ble_eq_true rfl)
    rw [hpc] at hphase
    have ht := s.world.remove_tables s.now.v.id r
    simp only [HibRun.step, Hib.step, hnow, hpc] at hs
    split at hs <;> rename_i heq <;> rw [heq] at ht <;> cases hs
    · exact Or.inr ⟨rfl, hfree⟩
    · refine Or.inl ?_
      dsimp only
      split
      · exact h.same ht (by rw [hpc]; rfl) rfl hphase (hmessage _ _ _) (by rintro _ ⟨⟩)
      · exact h.rollback ht (by rw [hpc]; rfl) hphase (failureMessage_begins _ _ _)
  | deleteManifest msg =>
    have herror := h.error msg (by rw [hpc]; rfl)
    rw [hpc] at hphase
    simp only [HibRun.step, Hib.step, hnow, hpc] at hs
    cases hs
    exact Or.inl (h.rollback (s.world.deleteManifest_tables s.now.v.name r) (by rw [hpc]; rfl) hphase herror)
  | addNIC msg =>
    have herror := h.error msg (by rw [hpc]; rfl)
    rw [hpc] at hphase
    simp only [HibRun.step, Hib.step, hnow, hpc] at hs
    cases hs
    exact Or.inl (h.same (s.world.netResize_tables s.now.v.id r [s.now.nic]) (by rw [hpc]; rfl) rfl hphase
      (by rintro _ ⟨⟩; exact herror) (by rintro _ ⟨⟩))
  | inspectNIC msg =>
    have herror := h.error msg (by rw [hpc]; rfl)
    rw [hpc] at hphase
    simp only [HibRun.step, Hib.step, hnow, hpc] at hs
    split at hs <;> cases hs <;>
      exact Or.inl (h.same rfl (by rw [hpc]; rfl) rfl hphase (by rintro _ ⟨⟩; exact herror)
        (by rintro _ ⟨⟩))
  | renew msg =>
    have herror := h.error msg (by rw [hpc]; rfl)
    rw [hpc] at hphase
    simp only [HibRun.step, Hib.step, hnow, hpc] at hs
    cases hs
    exact Or.inl (h.same rfl (by rw [hpc]; rfl) rfl hphase (by rintro _ ⟨⟩; exact herror) (by rintro _ ⟨⟩))

end Steps

/-! ### The call that failed -/

/-- What the notes say, at each point, of the call that has failed. -/
def Tells (call : Option HibCall) (cleared rolledBack : Bool) : HibPC → Prop
  | .startHibernate | .markHibernating | .release | .dropNIC | .save | .push | .clear => call = none
  | .renewAfterDrop _ => call = some .dropNIC
  | .remove => call = none ∧ cleared = true
  | .deleteManifest _ => call = some .remove ∧ cleared = true
  | .addNIC _ | .inspectNIC _ | .refreshNIC _ _ | .bind _ _ | .stamp _ _ | .patch _ _ =>
    call ≠ some .dropNIC ∧ (call = some .remove ↔ cleared = true)
  | .renew _ | .fail _ | .finishHibernate | .schedule | .done =>
    (call ≠ some .dropNIC ↔ rolledBack = true) ∧ (call = some .remove ↔ cleared = true)
  | .detach _ _ | .releaseLeases | .clearAgain | .forgetVM | .markHibernated => True

structure Told (call : Option HibCall) (reached : Bool) (s : HibRun) : Prop where
  reached : reached = true ↔ s.cleared = some true
  point : Tells call s.cleared.isSome s.rolledBack s.hib.pc

section Told
variable {s₀ s s' : HibRun} {r : Reply} {call : Option HibCall} {reached : Bool}

theorem Begins.told (h : s.Begins) : Told none false s := by
  refine ⟨?_, ?_⟩
  · rw [h.cleared]
    exact iff_of_false Bool.false_ne_true nofun
  · rw [h.pc]
    rfl

theorem Told.stays (h : Told call reached s) (hrank : s.hib.pc.rank = 0) (r : Reply) :
    Told (call.or (s.fails r)) (reached || s.clears r) s := by
  have hnot : s.fails r = none ∧ s.clears r = false := by
    unfold fails clears
    cases hpc : s.hib.pc <;> rw [hpc] at hrank <;> first | exact ⟨rfl, rfl⟩ | cases hrank
  rw [hnot.1, hnot.2, Option.or_none, Bool.or_false]
  exact h

/- Only the clear writes the note of the clear. -/
theorem cleared_same (hs : s.step r = some s') (hpc : s.hib.pc ≠ .clear) :
    s'.cleared = s.cleared ∧ s.clears r = false := by
  obtain ⟨x, -, rfl⟩ := Option.map_eq_some_iff.mp hs
  constructor
  · cases hpc' : s.hib.pc with
    | clear => exact absurd hpc' hpc
    | _ => rfl
  · simp only [clears, hpc, decide_false, Bool.false_and]

theorem Told.clear (h : Told call reached s) (hinv : Inv s₀ s) (hpc : s.hib.pc = .clear)
    (hs : s.step r = some s') : Told (call.or (s.fails r)) (reached || s.clears r) s' := by
  have hphase := hinv.phase
  have hpoint := h.point
  have hreached := h.reached
  rw [hpc] at hphase hpoint
  rw [hphase.1] at hreached
  have hnone : reached = false := by
    rw [← Bool.not_eq_true]
    exact fun hr => nomatch hreached.mp hr
  simp only [HibRun.step, Hib.step, show s.now.pc = .clear from hpc, hpc, Option.map_some] at hs
  cases hs
  refine ⟨?_, ?_, rfl⟩
  · simp only [hnone, clears, hpc, decide_true, Bool.true_and, Bool.false_or, Option.some.injEq]
  · rw [hpoint, fails, hpc]
    rfl

theorem tells_rollback {c b : Bool} (h : Hib) (msg : String) (hcall : call ≠ some .dropNIC)
    (hremove : call = some .remove ↔ c = true) : Tells call c b (h.rollback msg) := by
  unfold Hib.rollback
  split
  · exact ⟨hcall, hremove⟩
  · exact ⟨hcall, hremove⟩

theorem Told.step (h : Told call reached s) (hinv : Inv s₀ s)
    (hg : RollbackSucceeds s r) (hs : s.step r = some s') :
    Told (call.or (s.fails r)) (reached || s.clears r) s' := by
  by_cases hclear : s.hib.pc = .clear
  · exact h.clear hinv hclear hs
  have hnow : s.now.pc = s.hib.pc := rfl
  have hvm : s.hib.v = s.now.v := rfl
  obtain ⟨hcleared, hclears⟩ := cleared_same hs hclear
  refine ⟨?_, ?_⟩
  · rw [hclears, Bool.or_false, hcleared]
    exact h.reached
  have hpoint := h.point
  have hphase := hinv.phase
  rw [hcleared]
  unfold fails
  cases hpc : s.hib.pc with
  | clear => exact absurd hpc hclear
  | detach | releaseLeases | clearAgain | forgetVM | markHibernated =>
    rw [hpc] at hphase
    exact hphase.elim
  | schedule | done =>
    simp only [HibRun.step, Hib.step, hnow, hpc] at hs
    cases hs
  | startHibernate | release =>
    rw [hpc] at hpoint
    simp only [HibRun.step, Hib.step, hnow, hpc] at hs
    cases hs
    rw [hpoint]
    rfl
  | markHibernating =>
    rw [hpc] at hpoint
    simp only [HibRun.step, Hib.step, hnow, hpc] at hs
    cases hs
    rw [hpoint]
    dsimp only
    split <;> rfl
  | dropNIC =>
    rw [hpc] at hpoint
    simp only [HibRun.step, Hib.step, hnow, hpc] at hs
    rw [hpoint, hvm]
    split at hs
    next heq =>
      cases hs
      rw [heq]
      rfl
    next heq =>
      cases hs
      rw [heq]
      rfl
  | renewAfterDrop msg =>
    rw [hpc] at hpoint hphase
    obtain ⟨hnone, hback⟩ := hphase
    simp only [HibRun.step, Hib.step, hnow, hpc] at hs
    cases hs
    rw [Option.or_none, show call = some .dropNIC from hpoint]
    refine ⟨iff_of_false (not_not.mpr rfl) ?_, iff_of_false nofun ?_⟩
    · exact fun hb => Bool.false_ne_true (hback.symm.trans hb)
    · rw [hnone]
      exact Bool.false_ne_true
  | save =>
    rw [hpc] at hpoint hphase
    simp only [HibRun.step, Hib.step, hnow, hpc] at hs
    rw [hpoint, hvm]
    split at hs
    next heq =>
      cases hs
      rw [heq]
      dsimp only
      split <;> rfl
    next heq =>
      cases hs
      rw [heq]
      exact tells_rollback _ _ nofun (by simp [hphase.1])
  | push =>
    rw [hpc] at hpoint hphase
    simp only [HibRun.step, Hib.step, hnow, hpc] at hs
    rw [hpoint, hvm]
    split at hs
    next heq =>
      cases hs
      rw [heq]
      rfl
    next heq =>
      cases hs
      rw [heq]
      exact tells_rollback _ _ nofun (by simp [hphase.1])
  | remove =>
    rw [hpc] at hpoint hphase
    simp only [HibRun.step, Hib.step, hnow, hpc] at hs
    rw [hpoint.1, hvm]
    split at hs
    next heq =>
      cases hs
      trivial
    next heq =>
      cases hs
      rw [heq]
      dsimp only
      split
      · exact ⟨rfl, hpoint.2⟩
      · exact tells_rollback _ _ nofun (iff_of_true rfl hpoint.2)
  | deleteManifest msg =>
    rw [hpc] at hpoint
    simp only [HibRun.step, Hib.step, hnow, hpc] at hs
    cases hs
    rw [hpoint.1]
    exact tells_rollback _ _ nofun (iff_of_true rfl hpoint.2)
  | addNIC msg | refreshNIC msg fresh =>
    rw [hpc] at hpoint
    simp only [HibRun.step, Hib.step, hnow, hpc] at hs
    cases hs
    rw [Option.or_none]
    exact hpoint
  | inspectNIC msg =>
    rw [hpc] at hpoint
    simp only [HibRun.step, Hib.step, hnow, hpc] at hs
    rw [Option.or_none]
    split at hs
    all_goals
      cases hs
      exact hpoint
  | bind msg v =>
    rw [hpc] at hpoint
    have htrue := (hinv.held.bind hinv.key hinv.ref (hinv.record v (by rw [hpc]; rfl))).1
    simp only [HibRun.step, Hib.step, hnow, hpc] at hs
    rw [Option.or_none]
    split at hs
    next =>
      cases hs
      exact hpoint
    next heq =>
      rw [show s.world.tables.object s.hib.pod = s.now.pod from rfl, heq] at htrue
      cases htrue
  | stamp msg v =>
    rw [hpc] at hpoint
    have htrue := (hinv.held.stamp hinv.key hinv.ref v.id v.ip).1
    simp only [HibRun.step, Hib.step, hnow, hpc] at hs
    rw [Option.or_none]
    split at hs
    next =>
      cases hs
      exact hpoint
    next heq =>
      rw [show s.world.tables.object s.hib.pod = s.now.pod from rfl, heq] at htrue
      cases htrue
  | patch msg v =>
    have hok : r = .ok := by simpa only [RollbackSucceeds, hpc, HibPC.rollbackSucceeds, beq_iff_eq] using hg
    subst hok
    rw [hpc] at hpoint
    simp only [HibRun.step, Hib.step, hnow, hpc, reduceCtorEq, if_false, Hib.afterRollback] at hs
    cases hs
    rw [Option.or_none]
    dsimp only
    split <;> exact ⟨iff_of_true hpoint.1 rfl, hpoint.2⟩
  | renew msg | fail msg =>
    rw [hpc] at hpoint
    simp only [HibRun.step, Hib.step, hnow, hpc] at hs
    cases hs
    rw [Option.or_none]
    exact hpoint
  | finishHibernate =>
    rw [hpc] at hpoint
    simp only [HibRun.step, Hib.step, hnow, hpc] at hs
    cases hs
    rw [Option.or_none]
    dsimp only
    split <;> exact hpoint

/- One answer of a run. -/
theorem told_next (hx : (Inv s₀ s ∧ Told call reached s) ∨ s.Left) (hg : RollbackSucceeds s r) :
    (Inv s₀ ((s.step r).getD s) ∧
      Told (call.or (s.fails r)) (reached || s.clears r) ((s.step r).getD s)) ∨
      ((s.step r).getD s).Left := by
  cases hy : s.step r with
  | none =>
    rw [Option.getD_none]
    exact hx.imp_left fun ⟨hinv, htold⟩ => ⟨hinv, htold.stays (rank_of_stuck hy) r⟩
  | some y =>
    rw [Option.getD_some]
    rcases hx with ⟨hinv, htold⟩ | hleft
    · exact (hinv.step hg hy).imp_left fun hinv' => ⟨hinv', htold.step hinv hg hy⟩
    · exact Or.inr (left_step hleft hy)

theorem told_exec {rs : List Reply} (hx : (Inv s₀ s ∧ Told call reached s) ∨ s.Left)
    (hg : hibernateCall.Guarded RollbackSucceeds s rs) (h : hibernateCall.exec s rs = some s') :
    (Inv s₀ s' ∧ Told (call.or (s.failedCall rs)) (reached || s.clearLands rs) s') ∨ s'.Left := by
  induction rs generalizing s call reached with
  | nil =>
    cases h
    rw [failedCall, clearLands, Option.or_none, Bool.or_false]
    exact hx
  | cons r rs ih =>
    have hrest := ih (told_next hx hg.1) (hg.2 _ rfl) h
    rw [failedCall, clearLands, ← Option.or_assoc, ← Bool.or_assoc]
    exact hrest

end Told

/-! ### The end of a failed call -/

section End
variable {s s' : HibRun} {rs : List Reply}

theorem exec_inv (hs : s.Begins) (hg : hibernateCall.Guarded RollbackSucceeds s rs)
    (h : hibernateCall.exec s rs = some s') :
    (Inv s s' ∧ Told (s.failedCall rs) (s.clearLands rs) s') ∨ s'.Left := by
  have hend := told_exec (Or.inl ⟨hs.inv, hs.told⟩) hg h
  rw [Option.none_or, Bool.false_or] at hend
  exact hend

theorem Inv.end_vmid (h : Inv s s') (hrank : s'.hib.pc.rank = 0) :
    s.memoryVMID s' = (if s'.rolledBack then s.hib.v.id else s.hib.pod.vmid) ∧
      (s'.cleared.isSome = true → s'.rolledBack = true) := by
  have hphase := h.phase
  have hend : s'.hib.pc.isPatch = false ∧ (s'.cleared.isSome = true → s'.rolledBack = true) := by
    cases hpc : s'.hib.pc <;> rw [hpc] at hphase hrank <;> first | exact ⟨rfl, hphase⟩ | cases hrank
  refine ⟨?_, hend.2⟩
  unfold memoryVMID
  rw [hend.1, Bool.or_false]
  cases hb : s'.rolledBack with
  | true => rfl
  | false =>
    have hnone : s'.cleared.isSome = false := by
      rw [← Bool.not_eq_true]
      intro hsome
      rw [hend.2 hsome] at hb
      cases hb
    rw [hnone]
    rfl

theorem Inv.lifecycle_iff (h : Inv s s') (hrank : s'.hib.pc.rank = 0) :
    s'.world.tables.HibernateFailed s.hib.pod ↔
      s.world.tables.Behind s.hib.pod ∨ s.world.tables.HibernateFailed s.hib.pod := by
  by_cases hb : s.world.tables.Behind s.hib.pod
  · exact iff_of_true (h.behind (by omega) hb) (Or.inl hb)
  · unfold HibernateFailed
    rw [h.since.ahead hb]
    exact (or_iff_right hb).symm

theorem Told.ends {call : Option HibCall} {reached : Bool} (h : Told call reached s)
    (hrank : s.hib.pc.rank = 0) :
    (call ≠ some .dropNIC ↔ s.rolledBack = true) ∧ (call = some .remove ↔ s.cleared.isSome = true) := by
  have hpoint := h.point
  cases hpc : s.hib.pc <;> rw [hpc] at hpoint hrank <;> first | exact hpoint | cases hrank

theorem Inv.restored_iff (h : Inv s s') (htold : Told (s.failedCall rs) (s.clearLands rs) s')
    (hrank : s'.hib.pc.rank = 0) : s.Restored s' ↔ s.Keeps rs := by
  obtain ⟨hvmid, hback⟩ := h.end_vmid hrank
  obtain ⟨hdrop, hremove⟩ := htold.ends hrank
  obtain ⟨l, i, hreads⟩ := h.held.reads
  have hmap : (s'.world.tables.pods.get s.hib.pod.key).map (fun p => (p.vmid, p.postClone)) =
      some (s.memoryVMID s', s.memoryPostClone s') := by
    rw [hreads]
    rfl
  rw [hvmid] at hmap
  have hapi := h.vmid
  have hpost := h.postClone
  constructor
  · intro hr
    have hmemory := Option.some.inj (hmap.symm.trans hr.memory)
    obtain ⟨hm, hp⟩ := Prod.mk.inj hmemory
    obtain ⟨ha, hq⟩ := Prod.mk.inj hr.apiserver
    refine ⟨(h.lifecycle_iff hrank).mp hr.lifecycle, fun hcall => ?_, fun hcall => ?_, fun _ hlands => ?_⟩
    · rw [hdrop.mp hcall, if_pos rfl] at hm hapi
      exact ⟨hm.symm, ha.symm.trans hapi⟩
    · rw [memoryPostClone, if_pos (hremove.mp hcall)] at hp
      exact hp.symm
    · rw [if_pos (htold.reached.mp hlands)] at hpost
      exact hq.symm.trans hpost
  · intro hk
    refine ⟨h.held.vm, h.flag hrank, (h.lifecycle_iff hrank).mpr hk.lifecycle, ?_, ?_⟩
    · rw [hmap]
      refine congrArg some (Prod.ext ?_ ?_)
      · cases hb : s'.rolledBack with
        | true => exact (hk.vmid (hdrop.mpr hb)).1.symm
        | false => rfl
      · cases hc : s'.cleared.isSome with
        | true =>
          have habsent := hk.memory (hremove.mpr hc)
          simp only [memoryPostClone, hc, if_true, habsent]
        | false => simp only [memoryPostClone, hc, Bool.false_eq_true, if_false]
    · refine Prod.ext ?_ ?_
      · rw [hapi]
        cases hb : s'.rolledBack with
        | true => exact (hk.vmid (hdrop.mpr hb)).2.symm
        | false =>
          rw [if_neg Bool.false_ne_true]
          refine if_neg fun hc => ?_
          rw [hback (by rw [hc]; rfl)] at hb
          cases hb
      · rw [hpost]
        split
        next hc =>
          have hcall := hremove.mpr (by rw [hc]; rfl)
          exact (hk.apiserver hcall (htold.reached.mpr hc)).symm
        next => rfl

end End

end HibRun

/-- A hibernate that is alone on its key returns, and one that fails without destroying the VM leaves
the pod as it was exactly if no annotation it has overwritten was another before. -/
theorem failed_hibernate_restores_iff (s : HibRun) (rs : List Reply) (hs : s.Begins)
    (hlen : 19 ≤ rs.length) (hg : hibernateCall.Guarded RollbackSucceeds s rs) :
    ∃ s', hibernateCall.exec s rs = some s' ∧ s'.ended = true ∧
      (s'.failure.isSome = true → (s.Restored s' ↔ s.Keeps rs)) := by
  obtain ⟨s', hexec, hrank⟩ := hibernate_ends s rs (by rw [hs.pc]; exact hlen)
  refine ⟨s', hexec, ?_, fun hfailed => ?_⟩
  · unfold HibRun.ended
    cases hpc : s'.hib.pc <;> rw [hpc] at hrank <;> first | rfl | cases hrank
  · rcases HibRun.exec_inv hs hg hexec with ⟨hinv, htold⟩ | hleft
    · exact hinv.restored_iff htold hrank
    · rw [hleft.2] at hfailed
      cases hfailed

def markedPod : Pod := { samplePod with vmid := "vm1", postClone := .done }

def hibernateStart : HibRun where
  world := { sampleWorld with tables := Tables.new.trackPodLocked markedPod (some sampleVM) }
  hib := { sampleHib with pod := markedPod }
  api := ⟨"vm1", "", .done⟩
  cleared := none
  rolledBack := false
  failure := none

theorem hibernateStart_begins : hibernateStart.Begins :=
  ⟨by decide, by decide, by decide, rfl, rfl, rfl, rfl⟩

/-- The save fails. -/
theorem failed_hibernate_restores_save :
    let rs := [.ok, .ok, .failed "disk full"] ++ List.replicate 16 .ok
    ∃ s', hibernateCall.exec hibernateStart rs = some s' ∧
      s'.failure = some "hibernate: save snapshot vk-a: disk full" ∧ hibernateStart.Restored s' := by
  have hrun : (hibernateCall.exec hibernateStart
      ([.ok, .ok, .failed "disk full"] ++ List.replicate 16 .ok)).map (·.failure) =
      some (some "hibernate: save snapshot vk-a: disk full") := by decide +kernel
  have hcall : hibernateStart.failedCall ([.ok, .ok, .failed "disk full"] ++ List.replicate 16 .ok) =
      some .save := by decide +kernel
  obtain ⟨s', hexec, hfailure⟩ := Option.map_eq_some_iff.mp hrun
  obtain ⟨s'', hexec', -, hiff⟩ := failed_hibernate_restores_iff hibernateStart
    ([.ok, .ok, .failed "disk full"] ++ List.replicate 16 .ok) hibernateStart_begins (by decide)
    (by decide +kernel)
  have hsame : s'' = s' := Option.some.inj (hexec'.symm.trans hexec)
  subst hsame
  refine ⟨_, hexec, hfailure, (hiff (by rw [hfailure]; rfl)).mpr ⟨Or.inl ?_, fun _ => ⟨rfl, rfl⟩, ?_, ?_⟩⟩
  · rintro cur ⟨⟩
  · rw [hcall]
    rintro ⟨⟩
  · rw [hcall]
    rintro ⟨⟩

/-- The remove fails after the clear has taken the post-clone marker. -/
theorem failed_hibernate_loses_marker :
    ¬∀ (s : HibRun) (rs : List Reply) (s' : HibRun), s.Begins → 19 ≤ rs.length →
      hibernateCall.Guarded RollbackSucceeds s rs → hibernateCall.exec s rs = some s' →
      s'.failure.isSome = true → s.Restored s' := by
  intro hall
  have hrun : (hibernateCall.exec hibernateStart
      (List.replicate 5 .ok ++ .failed "busy" :: List.replicate 13 .ok)).map
      (fun s => (s.failure.isSome, s.api.vmid, s.api.postClone)) = some (true, "vm1", .absent) := by
    decide +kernel
  obtain ⟨s', hexec, hnotes⟩ := Option.map_eq_some_iff.mp hrun
  obtain ⟨hfailure, hapi⟩ := Prod.mk.inj hnotes
  have hrestored := hall hibernateStart _ s' hibernateStart_begins (by decide) (by decide +kernel) hexec hfailure
  have hmarker := congrArg Prod.snd hrestored.apiserver
  rw [show s'.api.postClone = .absent from (Prod.mk.inj hapi).2] at hmarker
  cases hmarker

end VkCocoon
