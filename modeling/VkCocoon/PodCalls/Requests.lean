import VkCocoon.Retries
import VkCocoon.SnapshotAnswers

/-!
# Snapshot requests in the other models of updatePod

`UpdateCall` is `updatePod` under the lock of its key, with all of `snapshot`. A run of it for a pod
that is tracked is a run of `RetryState.locked`, which takes `applyUpdate` for one step, and its
`snapshot` is that of the node.
-/

namespace VkCocoon
open Lib Tables

/-! ### The lock and the retries -/

/-- A call that has been given its mutex. -/
def lockedCall (i : ℕ) (x : LockedCall) : Machine (RetryState × LockedPC) RetryAnswer :=
  ⟨fun s a => s.1.locked i x s.2 a⟩

namespace UpdatePC

def inApply : UpdatePC → Bool
  | .apply | .begin | .save | .push | .cleanup _ | .answer _ _ | .rest => true
  | _ => false

/-- The points of a call with the mutex `l` that works on `pod`. -/
inductive Locks (l : ℕ) (key : Key) (x : LockedCall) (pod : Pod) (prev : ℕ) : UpdatePC → LockedPC → Prop where
  | acquire (hx : x = .updatePod pod) (hkey : pod.key = key) : Locks l key x pod prev .acquire (.acquire l)
  | tryLock (hx : x = .retryOp key) : Locks l key x pod prev .tryLock (.acquire l)
  | check (hx : x = .retryOp key) : Locks l key x pod prev .check (.check l)
  | backoff (hkey : pod.key = key) : Locks l key x pod prev .backoff (.update l (.enter pod))
  | look (hkey : pod.key = key) : Locks l key x pod prev .look (.update l (.look pod))
  | track (hkey : pod.key = key) : Locks l key x pod prev .track (.update l (.track pod))
  | takeRetry (hkey : pod.key = key) : Locks l key x pod prev .takeRetry (.update l (.takeRetry pod))
  | apply (pc : UpdatePC) (h : pc.inApply = true) : Locks l key x pod prev pc (.update l (.apply pod prev))
  | retryLater : Locks l key x pod prev .retryLater (.update l (.retryLater pod prev))
  | unlock : Locks l key x pod prev .unlock (.unlock l)
  | done : Locks l key x pod prev .done .done

end UpdatePC

/-- The call `t` as the retries have it. -/
structure Requests.Shows (s : Requests) (l : ℕ) (x : LockedCall) (t : UpdateCall) (rs : RetryState)
    (pc : LockedPC) : Prop where
  tables : rs.tables = s.world.tables
  lock : rs.owner.has l = s.owner.isSome
  point : t.pc.Locks l s.key x t.copy.pod t.prev pc

section Locked
variable {s s' : Requests} {t t' : UpdateCall} {a : Answer} {i l : ℕ} {x : LockedCall} {rs : RetryState} {pc : LockedPC}

/-- The run of `RetryState.locked` that a step of `UpdateCall` is. -/
def LockedRun (i l : ℕ) (x : LockedCall) (rs : RetryState) (pc : LockedPC) (s' : Requests) (t' : UpdateCall) : Prop :=
  (lockedCall i x).Reaches (rs, pc) fun c => s'.Shows l x t' c.1 c.2

theorem lockedRun_one (ans : RetryAnswer) {rs' : RetryState} {pc' : LockedPC}
    (hstep : rs.locked i x pc ans = some (rs', pc')) (hs : s'.Shows l x t' rs' pc') :
    LockedRun i l x rs pc s' t' :=
  Machine.reaches_step ans hstep hs

/-- Nothing that the retries see is changed. -/
structure Requests.Same (s s' : Requests) : Prop where
  tables : s'.world.tables = s.world.tables
  owner : s'.owner = s.owner
  key : s'.key = s.key

theorem Requests.same_land (s : Requests) (status : SnapshotStatus) : s.Same (s.land status) := by
  unfold land
  split <;> exact ⟨rfl, rfl, rfl⟩

/- The call goes on with the tables and the lock as they are. -/
theorem Requests.Shows.same (hs : s.Shows l x t rs pc) (hsame : s.Same s') {pc' : LockedPC}
    (hpoint : t'.pc.Locks l s.key x t'.copy.pod t'.prev pc') : s'.Shows l x t' rs pc' := by
  refine ⟨?_, ?_, ?_⟩
  · rw [hs.tables, hsame.tables]
  · rw [hs.lock, hsame.owner]
  · rw [hsame.key]
    exact hpoint

theorem UpdateCall.applied_inApply (t : UpdateCall) (w : World) : (t.applied w).inApply = true := by
  unfold UpdateCall.applied
  dsimp only
  repeat' split
  all_goals rfl

/- A step of `applyUpdate`, and where it goes. -/
theorem UpdateCall.step_inApply (hin : t.pc.inApply = true) (hstep : t.step s i a = some (s', t')) :
    s.Same s' ∧ ∃ pc', t' = t.go pc' ∧ (pc'.inApply = true ∨ pc' = .retryLater ∨ pc' = .unlock) := by
  unfold UpdateCall.step at hstep
  cases hpc : t.pc with
  | apply =>
    simp only [hpc] at hstep
    cases hstep
    exact ⟨⟨rfl, rfl, rfl⟩, _, rfl, Or.inl (t.applied_inApply s.world)⟩
  | begin =>
    simp only [hpc] at hstep
    cases hstep
    refine ⟨⟨rfl, rfl, rfl⟩, _, rfl, ?_⟩
    cases lifecycleCreating (s.world.tables.podNow t.copy.pod) with
    | true => exact Or.inr (Or.inl rfl)
    | false => exact Or.inl rfl
  | save =>
    simp only [hpc] at hstep
    obtain ⟨v, -, hstep⟩ := Option.map_eq_some_iff.mp hstep
    have htables := s.world.snapshotSave_tables v.id (UpdateCall.localName v) a.reply
    split at hstep
    all_goals
      next heq =>
        cases hstep
        rw [heq] at htables
        exact ⟨⟨htables, rfl, rfl⟩, _, rfl, Or.inl rfl⟩
  | push =>
    simp only [hpc] at hstep
    obtain ⟨v, -, hstep⟩ := Option.map_eq_some_iff.mp hstep
    cases hstep
    exact ⟨⟨rfl, rfl, rfl⟩, _, rfl, Or.inl rfl⟩
  | cleanup err =>
    simp only [hpc] at hstep
    obtain ⟨v, -, hstep⟩ := Option.map_eq_some_iff.mp hstep
    cases hstep
    exact ⟨⟨Delete.snapshotRemove_tables _ _ _, rfl, rfl⟩, _, rfl, Or.inl rfl⟩
  | answer err attempt =>
    have hpatched : ∃ pc', t.patched err attempt a = t.go pc' ∧
        (pc'.inApply = true ∨ pc' = .retryLater ∨ pc' = .unlock) := by
      refine ⟨_, rfl, ?_⟩
      repeat' split
      all_goals first | exact Or.inl rfl | exact Or.inr (Or.inl rfl)
    simp only [hpc] at hstep
    split at hstep
    all_goals
      cases hstep
      refine ⟨?_, hpatched⟩
      first | exact s.same_land _ | exact ⟨rfl, rfl, rfl⟩
  | rest =>
    simp only [hpc] at hstep
    cases hstep
    refine ⟨⟨rfl, rfl, rfl⟩, _, rfl, Or.inr ?_⟩
    cases a.reply.err.isSome with
    | true => exact Or.inl rfl
    | false => exact Or.inr rfl
  | _ =>
    rw [hpc] at hin
    cases hin

/-- A step of a call for a tracked pod is a run of the call that keeps the retries. -/
theorem request_step_run (hs : s.Shows l x t rs pc)
    (hkeys : ∀ p, s.world.tables.pods.get s.key = some p → p.key = s.key)
    (htracked : t.pc = .look → s.world.tables.trackedPodMatches s.key t.copy.pod.uid = true)
    (hstep : t.step s i a = some (s', t')) : LockedRun i l x rs pc s' t' := by
  have hwhole := hstep
  have ht := hs.tables
  have hlock := hs.lock
  have hpoint := hs.point
  unfold UpdateCall.step at hstep
  generalize hpc : t.pc = tpc at hpoint hstep htracked
  cases hpoint with
  | acquire hx hkey =>
    cases ho : s.owner.isSome with
    | true =>
      simp only [ho, if_true] at hstep
      cases hstep
    | false =>
      simp only [ho, Bool.false_eq_true, if_false] at hstep
      cases hstep
      have hlocked : rs.locked i x (.acquire l) ⟨0, false, none, false⟩ =
          some ({ rs with owner := rs.owner.set l i }, .update l (.enter t.copy.pod)) := by
        simp only [RetryState.locked, hlock.trans ho, Bool.false_eq_true, if_false, hx, RetryState.begin]
      exact lockedRun_one _ hlocked ⟨ht, by simp [GoMap.has_set], .backoff hkey⟩
  | tryLock hx =>
    cases ho : s.owner.isSome with
    | true =>
      simp only [ho, if_true] at hstep
      cases hstep
      have hlocked : rs.locked i x (.acquire l) ⟨0, false, none, false⟩ = some (rs, .done) := by
        simp only [RetryState.locked, hlock.trans ho, if_true, hx, LockedCall.call]
      exact lockedRun_one _ hlocked ⟨ht, hlock, .done⟩
    | false =>
      simp only [ho, Bool.false_eq_true, if_false] at hstep
      cases hstep
      have hlocked : rs.locked i x (.acquire l) ⟨0, false, none, false⟩ =
          some ({ rs with owner := rs.owner.set l i }, .check l) := by
        simp only [RetryState.locked, hlock.trans ho, Bool.false_eq_true, if_false, hx, RetryState.begin]
      exact lockedRun_one _ hlocked ⟨ht, by simp [GoMap.has_set], .check hx⟩
  | check hx =>
    have hkey : x.key = s.key := by rw [hx]; rfl
    cases hr : s.world.tables.opRetries.get s.key with
    | none =>
      simp only [hr] at hstep
      cases hstep
      have hlocked : rs.locked i x (.check l) ⟨a.now, false, none, false⟩ = some (rs, .unlock l) := by
        simp only [RetryState.locked, ht, hkey, hr]
      exact lockedRun_one _ hlocked ⟨ht, hlock, .unlock⟩
    | some r =>
      cases hp : s.world.tables.pods.get s.key with
      | none =>
        simp only [hr, hp] at hstep
        cases hstep
        have hlocked : rs.locked i x (.check l) ⟨a.now, false, none, false⟩ = some (rs, .unlock l) := by
          simp only [RetryState.locked, ht, hkey, hr, hp]
        exact lockedRun_one _ hlocked ⟨ht, hlock, .unlock⟩
      | some tracked =>
        have hlocked : rs.locked i x (.check l) ⟨a.now, false, none, false⟩ =
            some (rs, if a.now < r.due then .unlock l else .update l (.enter tracked)) := by
          simp only [RetryState.locked, ht, hkey, hr, hp]
        simp only [hr, hp] at hstep
        split at hstep
        next hdue =>
          cases hstep
          rw [if_neg (Nat.not_lt.mpr hdue)] at hlocked
          exact lockedRun_one _ hlocked ⟨ht, hlock, .backoff (hkeys tracked hp)⟩
        next hdue =>
          cases hstep
          rw [if_pos (Nat.lt_of_not_le hdue)] at hlocked
          exact lockedRun_one _ hlocked ⟨ht, hlock, .unlock⟩
  | backoff hkey =>
    cases hstep
    have hlocked : rs.locked i x (.update l (.enter t.copy.pod)) ⟨0, false, none, false⟩ =
        some (rs, if s.world.tables.resumedOps.has s.key then .unlock l else .update l (.look t.copy.pod)) := by
      simp only [RetryState.locked, RetryState.updatePod, ht, hkey, Bool.false_or]
      cases s.world.tables.resumedOps.has s.key <;> rfl
    refine lockedRun_one _ hlocked ⟨ht, hlock, ?_⟩
    cases s.world.tables.resumedOps.has s.key with
    | true => exact .unlock
    | false => exact .look hkey
  | look hkey =>
    simp only [htracked rfl, if_true] at hstep
    cases hstep
    obtain ⟨tracked, hget, huid⟩ := (Option.any_eq_true _ _).mp (htracked rfl)
    have hlocked : rs.locked i x (.update l (.look t.copy.pod)) ⟨0, false, none, false⟩ =
        some (rs, .update l (.track t.copy.pod)) := by
      simp only [RetryState.locked, RetryState.updatePod, ht, hkey, hget, beq_iff_eq.mp huid, if_true]
    exact lockedRun_one _ hlocked ⟨ht, hlock, .track hkey⟩
  | track hkey =>
    cases htrack : s.world.tables.trackPodUnlessDeleting t.copy.pod none with
    | mk tables tracked =>
      have hlocked : rs.locked i x (.update l (.track t.copy.pod)) ⟨0, false, none, false⟩ =
          some (rs.on tables [], if tracked then .update l (.takeRetry t.copy.pod) else .unlock l) := by
        simp only [RetryState.locked, RetryState.updatePod, ht, htrack]
        cases tracked <;> rfl
      simp only [htrack] at hstep
      cases tracked with
      | true =>
        cases hstep
        exact lockedRun_one _ hlocked ⟨rfl, hlock, .takeRetry hkey⟩
      | false =>
        cases hstep
        refine lockedRun_one _ hlocked ⟨?_, hlock, .unlock⟩
        unfold trackPodUnlessDeleting at htrack
        split at htrack
        · cases htrack
          rfl
        · cases htrack
  | takeRetry hkey =>
    cases htake : s.world.tables.takeOpRetry s.key with
    | mk tables prev =>
      simp only [htake] at hstep
      cases hstep
      have hlocked : rs.locked i x (.update l (.takeRetry t.copy.pod)) ⟨0, false, none, false⟩ =
          some (rs.on tables [.attempt i t.copy.pod.key], .update l (.apply t.copy.pod prev)) := by
        simp only [RetryState.locked, RetryState.updatePod, ht, hkey, htake]
      exact lockedRun_one _ hlocked ⟨rfl, hlock, .apply .apply rfl⟩
  | apply pc hin =>
    subst hpc
    obtain ⟨hsame, pc', rfl, hin' | rfl | rfl⟩ := UpdateCall.step_inApply hin hwhole
    · exact Machine.reaches_here (hs.same hsame (.apply pc' hin'))
    · exact lockedRun_one ⟨0, false, none, true⟩ rfl (hs.same hsame .retryLater)
    · exact lockedRun_one ⟨0, false, none, false⟩ rfl (hs.same hsame .unlock)
  | retryLater =>
    cases hstep
    have hlocked : rs.locked i x (.update l (.retryLater t.copy.pod t.prev)) ⟨a.now, false, none, false⟩ =
        some (rs.on (s.world.tables.retryOpLater t.copy.pod t.prev a.now)
          (if s.world.tables.trackedPodMatches t.copy.pod.key t.copy.pod.uid then
            [.failed i t.copy.pod.key a.now] else []), .unlock l) := by
      simp only [RetryState.locked, RetryState.updatePod, ht]
    exact lockedRun_one _ hlocked ⟨rfl, hlock, .unlock⟩
  | unlock =>
    cases hstep
    have hlocked : rs.locked i x (.unlock l) ⟨0, false, none, false⟩ =
        some ({ rs with owner := rs.owner.del l }, .done) := rfl
    exact lockedRun_one _ hlocked ⟨ht, by simp [GoMap.has_del], .done⟩
  | done => cases hstep

/-- The call alone. -/
def requestCall (i : ℕ) : Machine (Requests × UpdateCall) Answer := ⟨fun c a => c.2.step c.1 i a⟩

/-- A call that finds its pod tracked, in tables whose entries have their keys. -/
structure FindsTracked (c : Requests × UpdateCall) : Prop where
  keys : ∀ p, c.1.world.tables.pods.get c.1.key = some p → p.key = c.1.key
  tracked : c.2.pc = .look → c.1.world.tables.trackedPodMatches c.1.key c.2.copy.pod.uid = true

/-- A run of a call for a tracked pod is one of the call that keeps the retries. -/
theorem request_run {as : List Answer} (hs : s.Shows l x t rs pc)
    (hg : (requestCall i).Guarded (fun c _ => FindsTracked c) (s, t) as)
    (hrun : (requestCall i).exec (s, t) as = some (s', t')) : LockedRun i l x rs pc s' t' := by
  let R : Requests × UpdateCall → RetryState × LockedPC → Prop := fun c d => c.1.Shows l x c.2 d.1 d.2
  have hsim : ∀ c ans c' d, R c d → FindsTracked c → (requestCall i).step c ans = some c' →
      (lockedCall i x).Reaches d (R c') :=
    fun _ _ _ _ hs₁ hfinds hstep => request_step_run hs₁ hfinds.keys hfinds.tracked hstep
  exact (requestCall i).exec_simulates hsim (show R (s, t) (rs, pc) from hs) hg hrun

end Locked

/-! ### The snapshot of the node -/

/-- `snapshot` of the node alone. -/
def snapshotCall : Machine (World × NodeThread) Answer :=
  ⟨fun s a =>
    match s.2 with
    | .snapshot c => some (c.step s.1 a)
    | _ => none⟩

/-- The points of `snapshot`. The attempts of the patch are one. -/
inductive UpdatePC.Snapshots (c : SnapshotCall) : UpdatePC → NodeThread → Prop where
  | begin : Snapshots c .begin (c.go .begin)
  | save : Snapshots c .save (c.go .save)
  | push : Snapshots c .push (c.go .push)
  | cleanup (err : Option String) : Snapshots c (.cleanup err) (c.go .cleanup)
  | answer (err : Option String) (attempt : ℕ) : Snapshots c (.answer err attempt) (c.go .answer)
  | returned : Snapshots c .rest (c.ret true)
  | failed : Snapshots c .retryLater (c.ret false)

section Snapshot
variable {s s' : Requests} {t t' : UpdateCall} {a : Answer} {i : ℕ} {c : SnapshotCall} {n : NodeThread}

/-- The run of the node's `snapshot` that a step of a call is. -/
def SnapshotRun (c : SnapshotCall) (s : Requests) (n : NodeThread) (s' : Requests) (t' : UpdateCall) : Prop :=
  snapshotCall.Reaches (s.world, n) fun d => d.1 = s'.world ∧ t'.pc.Snapshots c d.2

theorem snapshotRun_one (ans : Answer) (n' : NodeThread) {spc : SnapshotPC}
    (hstep : SnapshotCall.step { c with pc := spc } s.world ans = (s'.world, n')) (hpoint : t'.pc.Snapshots c n') :
    SnapshotRun c s (c.go spc) s' t' :=
  Machine.reaches_step ans (congrArg some hstep) ⟨rfl, hpoint⟩

theorem Requests.land_world (s : Requests) (status : SnapshotStatus) : (s.land status).world = s.world := by
  unfold land
  split <;> rfl

/- An attempt of the patch. -/
theorem patched_run {err : Option String} {attempt : ℕ} (hw : s'.world = s.world) :
    SnapshotRun c s (c.go .answer) s' (t.patched err attempt a) := by
  have hreturns : ∀ t' : UpdateCall, t'.pc = .rest → SnapshotRun c s (c.go .answer) s' t' := by
    intro t' hpc
    refine snapshotRun_one { a with reply := .ok } (c.ret true) ?_ (by rw [hpc]; exact .returned)
    rw [hw]
    rfl
  unfold UpdateCall.patched
  cases hr : a.reply with
  | ok | nameTaken => exact hreturns _ rfl
  | failed e | failedAfter e =>
    dsimp only
    split
    · refine snapshotRun_one a (c.ret false) ?_ .failed
      rw [hw]
      simp only [SnapshotCall.step, hr]
      rfl
    · split
      · exact hreturns _ rfl
      · exact Machine.reaches_here ⟨hw.symm, .answer err (attempt + 1)⟩

/-- A step of `snapshot` is a run of that of the node, for the same pod and VM. -/
theorem snapshot_step_run (hpod : t.copy.pod = c.caller.pod) (hvm : t.vm = some c.v) (hpoint : t.pc.Snapshots c n)
    (hend : t.pc ≠ .rest ∧ t.pc ≠ .retryLater) (hstep : t.step s i a = some (s', t')) :
    SnapshotRun c s n s' t' := by
  unfold UpdateCall.step at hstep
  generalize t.pc = tpc at hpoint hstep hend
  cases hpoint with
  | begin =>
    cases hstep
    refine snapshotRun_one a _ rfl ?_
    dsimp only [UpdateCall.go]
    rw [hpod]
    cases lifecycleCreating (s.world.tables.podNow c.caller.pod) with
    | true => exact .failed
    | false => exact .save
  | save =>
    simp only [hvm, Option.map_some] at hstep
    cases hsave : s.world.snapshotSave (UpdateCall.localName c.v) c.v.id a.reply with
    | mk w₁ err =>
      have hname : SnapshotCall.localName { c with pc := .save } = UpdateCall.localName c.v := rfl
      simp only [hsave] at hstep
      cases err with
      | none =>
        cases hstep
        exact snapshotRun_one a _ (by simp only [SnapshotCall.step, hname, hsave]; rfl) .push
      | some e =>
        cases hstep
        exact snapshotRun_one a _ (by simp only [SnapshotCall.step, hname, hsave]; rfl) (.cleanup _)
  | push =>
    simp only [hvm, Option.map_some] at hstep
    cases hstep
    exact snapshotRun_one a _ rfl (.cleanup _)
  | cleanup err =>
    simp only [hvm, Option.map_some] at hstep
    cases hstep
    exact snapshotRun_one a _ rfl (.answer err 0)
  | answer err attempt =>
    dsimp only at hstep
    split at hstep
    · cases hstep
      exact patched_run (s.land_world _)
    · cases hstep
      exact patched_run (s.land_world _)
    · cases hstep
      exact patched_run rfl
    · cases hstep
      exact patched_run rfl
  | returned => exact absurd rfl hend.1
  | failed => exact absurd rfl hend.2

/-- A run of `snapshot` is one of that of the node. -/
theorem snapshot_run {as : List Answer} (hpod : t.copy.pod = c.caller.pod) (hvm : t.vm = some c.v)
    (hpoint : t.pc.Snapshots c n)
    (hend : (requestCall i).Guarded (fun d _ => d.2.pc ≠ .rest ∧ d.2.pc ≠ .retryLater) (s, t) as)
    (hrun : (requestCall i).exec (s, t) as = some (s', t')) : SnapshotRun c s n s' t' := by
  let R : Requests × UpdateCall → World × NodeThread → Prop := fun d e =>
    e.1 = d.1.world ∧ d.2.copy.pod = c.caller.pod ∧ d.2.vm = some c.v ∧ d.2.pc.Snapshots c e.2
  have hsim : ∀ d ans d' e, R d e → (d.2.pc ≠ .rest ∧ d.2.pc ≠ .retryLater) →
      (requestCall i).step d ans = some d' → snapshotCall.Reaches e (R d') := by
    rintro ⟨s₁, t₁⟩ ans ⟨s₂, t₂⟩ ⟨_, n₁⟩ ⟨rfl, hpod₁, hvm₁, hpoint₁⟩ hend₁ hstep
    dsimp only at hpod₁ hvm₁ hpoint₁ hend₁
    have hin : t₁.pc.inApply = true := by
      generalize t₁.pc = pc at hpoint₁ hend₁
      cases hpoint₁ with
      | failed => exact absurd rfl hend₁.2
      | _ => rfl
    -- the call keeps its pod and its VM
    obtain ⟨-, pc₂, rfl, -⟩ := UpdateCall.step_inApply hin hstep
    exact (snapshot_step_run hpod₁ hvm₁ hpoint₁ hend₁ hstep).mono fun _ h => ⟨h.1, hpod₁, hvm₁, h.2⟩
  have hstart : R (s, t) (s.world, n) := ⟨rfl, hpod, hvm, hpoint⟩
  exact ((requestCall i).exec_simulates hsim hstart hend hrun).mono fun _ h => ⟨h.1, h.2.2.2⟩

end Snapshot

end VkCocoon
